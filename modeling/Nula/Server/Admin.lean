import Nula.Core.Nip98
import Nula.Core.Spelling
import Nula.Lib.Yields
import Nula.Server.Management

/-!
# `Server.Admin` — who may send management requests (`server/relay.rs`)

A management request is a `POST` that the relay reads off the socket itself (`readHttpRequest`). Its header
carries a signed event, which must verify, be an admin's, be fresh and name the request (`authorizeManagement`);
then the body is executed.

## Contents
- **Requests.** `readHttpRequest`, over whatever the socket delivers.
- **Requests that are executed.** `handleManagementPost`, and exactly which ones it executes (`executed_iff`).
- **Bodies.** `guarded_iff`: an event without a payload tag lets any body through.
-/

namespace Nula.Management

open Std
open Nip98 (HttpAuthError HttpAuthRequest HttpMethod)

/-! ## Requests -/

/-- `MAX_HTTP_HEADER_BYTES`. -/
def maxHttpHeaderBytes : Nat := 16 * 1024

/-- `MAX_HTTP_BODY_BYTES`. -/
def maxHttpBodyBytes : Nat := 64 * 1024

/-- What one `read` of the socket brings: an error, or bytes, none of them at the end. -/
abbrev Read := Option Bytes

structure HttpRequest where
  path : String
  headers : List (String × String)
  body : Bytes
  deriving DecidableEq

/-- `HttpRequest::header`. -/
def HttpRequest.header (request : HttpRequest) (name : String) : Option String :=
  (request.headers.find? (fun h => h.1 = name)).map Prod.snd

/-- Where the blank line begins. -/
def headEnd : Bytes → Option Nat
  | [] => none
  | b :: rest =>
      if [13, 10, 13, 10].isPrefixOf (b :: rest) then some 0 else (headEnd rest).map (· + 1)

/-- The first loop of `read_http_request`: until there is a blank line. -/
def readHead (buf : Bytes) : List Read → Option (Bytes × Nat × List Read)
  | [] => none
  | none :: _ => none
  | some chunk :: reads =>
      if chunk = [] then none
      else
        match headEnd (buf ++ chunk) with
        | some pos => some (buf ++ chunk, pos, reads)
        | none => if maxHttpHeaderBytes < (buf ++ chunk).length then none else readHead (buf ++ chunk) reads

/-- The second loop: until the body is long enough, or the stream ends. -/
def readBody (contentLength : Nat) (body : Bytes) : List Read → Option Bytes
  | [] => some body
  | read :: reads =>
      if contentLength ≤ body.length then some body
      else
        match read with
        | none => none
        | some chunk => if chunk = [] then some body else readBody contentLength (body ++ chunk) reads

/-- `str::split("\r\n")`. -/
def splitLines : List Char → List (List Char)
  | [] => [[]]
  | '\r' :: '\n' :: cs => [] :: splitLines cs
  | c :: cs =>
      match splitLines cs with
      | [] => [[c]]
      | line :: lines => (c :: line) :: lines

/-- A header line, if it has a colon. -/
def headerOf (line : List Char) : Option (String × String) :=
  (splitOnce ':' line).map (fun (k, v) => (toAsciiLowercase (trim (String.ofList k)), trim (String.ofList v)))

/-- The length the headers announce. -/
def contentLength (headers : List (String × String)) : Nat :=
  ((headers.find? (fun h => h.1 = "content-length")).bind (fun h => parseUnsigned (2 ^ 64 - 1) h.2)).getD 0

/-- `read_http_request`. -/
def readHttpRequest (reads : List Read) : Option HttpRequest := do
  let (buf, pos, reads) ← readHead [] reads
  let head ← fromUtf8 (buf.take pos)
  let lines := splitLines head.toList
  let path ← (splitOn ' ' (lines.headD []))[1]?
  let headers := lines.tail.filterMap headerOf
  if maxHttpBodyBytes < contentLength headers then none
  else
    let body ← readBody (contentLength headers) (buf.drop (pos + 4)) reads
    return ⟨String.ofList path, headers, body.take (contentLength headers)⟩

/-! ### A request in one piece -/

/-- A line of ASCII. -/
def Plain (line : List Char) : Prop := line ≠ [] ∧ ∀ c ∈ line, c.val ≤ 127 ∧ c ≠ '\r'

theorem utf8_plain {c : Char} (h : c.val ≤ 127) : String.utf8EncodeChar c = [c.val.toUInt8] :=
  String.utf8EncodeChar_eq_singleton (Char.utf8Size_eq_one_iff.mpr h)

theorem Plain.no_return {line : List Char} (h : Plain line) : (13 : UInt8) ∉ line.flatMap String.utf8EncodeChar := by
  intro hmem
  obtain ⟨c, hc, hbyte⟩ := List.mem_flatMap.mp hmem
  obtain ⟨hascii, hne⟩ := h.2 c hc
  rw [utf8_plain hascii, List.mem_singleton] at hbyte
  refine hne (Char.ext (UInt32.toNat_inj.mp ?_))
  have hnat := congrArg UInt8.toNat hbyte
  rw [UInt32.toNat_toUInt8] at hnat
  have hle := UInt32.le_iff_toNat_le.mp hascii
  simp at hnat hle ⊢
  omega

/-- The end of the head is behind a line without a return. -/
theorem headEnd_append {line tail : Bytes} (h : 13 ∉ line) :
    headEnd (line ++ tail) = (headEnd tail).map (· + line.length) := by
  induction line with
  | nil => simp
  | cons b line ih =>
      have hb : (13 : UInt8) ≠ b := fun heq => h (heq ▸ List.mem_cons_self)
      rw [List.cons_append, headEnd, if_neg (by simp [List.isPrefixOf, hb]),
        ih (fun hmem => h (List.mem_cons_of_mem b hmem)), Option.map_map]
      congr 1

theorem headEnd_break {b : UInt8} {tail : Bytes} (h : b ≠ 13) :
    headEnd (13 :: 10 :: b :: tail) = (headEnd (b :: tail)).map (· + 2) := by
  rw [headEnd, if_neg (by simp [List.isPrefixOf, h.symm]), headEnd, if_neg (by simp [List.isPrefixOf]), Option.map_map]
  congr 1

/-- The bytes of a head: lines with a break before each but the first. -/
def headBytes (rest : List (List Char)) : Bytes :=
  rest.flatMap (fun line => 13 :: 10 :: line.flatMap String.utf8EncodeChar)

/-- The blank line is the first one. -/
theorem headEnd_lines {rest : List (List Char)} (h : ∀ line ∈ rest, Plain line) (body : Bytes) :
    headEnd (headBytes rest ++ (13 :: 10 :: 13 :: 10 :: body)) = some (headBytes rest).length := by
  induction rest with
  | nil => rfl
  | cons line rest ih =>
      have hline := h line List.mem_cons_self
      obtain ⟨c, cs, rfl⟩ := List.exists_cons_of_ne_nil hline.1
      have hfirst := utf8_plain (hline.2 c List.mem_cons_self).1
      have hnot := hline.no_return
      rw [List.flatMap_cons, hfirst, List.singleton_append] at hnot
      have hb : c.val.toUInt8 ≠ 13 := fun heq => hnot (heq ▸ List.mem_cons_self)
      have hrest := ih (fun l hl => h l (List.mem_cons_of_mem _ hl))
      have hcut : headBytes ((c :: cs) :: rest) ++ (13 :: 10 :: 13 :: 10 :: body) =
          13 :: 10 :: c.val.toUInt8 :: (cs.flatMap String.utf8EncodeChar ++
            (headBytes rest ++ (13 :: 10 :: 13 :: 10 :: body))) := by
        simp [headBytes, hfirst]
      have hlength : (headBytes ((c :: cs) :: rest)).length =
          (headBytes rest).length + (c.val.toUInt8 :: cs.flatMap String.utf8EncodeChar).length + 2 := by
        simp [headBytes, hfirst]
        omega
      rw [hcut, headEnd_break hb, ← List.cons_append, headEnd_append hnot, hrest, hlength]
      rfl

/-- A character that is no return stays in its line. -/
theorem splitLines_char {c : Char} (h : c ≠ '\r') {cs line : List Char} {lines : List (List Char)}
    (hcs : splitLines cs = line :: lines) : splitLines (c :: cs) = (c :: line) :: lines := by
  rw [splitLines, hcs]
  rintro cs' hreturn
  exact absurd hreturn h

/-- The first line ends at the first break. -/
theorem splitLines_append {line tail : List Char} {lines : List (List Char)} (h : ∀ c ∈ line, c ≠ '\r')
    (htail : splitLines tail = [] :: lines) : splitLines (line ++ tail) = line :: lines := by
  induction line with
  | nil => exact htail
  | cons c line ih =>
      exact splitLines_char (h c List.mem_cons_self) (ih (fun d hd => h d (List.mem_cons_of_mem c hd)))

/-- The characters of a head after its first line. -/
def headChars (rest : List (List Char)) : List Char := rest.flatMap (fun line => '\r' :: '\n' :: line)

theorem splitLines_headChars {rest : List (List Char)} (h : ∀ line ∈ rest, Plain line) :
    splitLines (headChars rest) = [] :: rest := by
  induction rest with
  | nil => rfl
  | cons line rest ih =>
      have hrest := ih (fun l hl => h l (List.mem_cons_of_mem line hl))
      have hcut : headChars (line :: rest) = '\r' :: '\n' :: (line ++ headChars rest) := by
        simp [headChars]
      rw [hcut, splitLines, splitLines_append (fun c hc => ((h line List.mem_cons_self).2 c hc).2) hrest]

/-- **A request is read as it was written**: lines of ASCII, a blank line, a body of the announced length. -/
theorem readHttpRequest_lines {first path : List Char} {rest : List (List Char)} {body : Bytes}
    (hfirst : Plain first) (hrest : ∀ line ∈ rest, Plain line) (hpath : (splitOn ' ' first)[1]? = some path)
    (hlength : contentLength (rest.filterMap headerOf) = body.length) (hmax : body.length ≤ maxHttpBodyBytes) :
    readHttpRequest [some (strBytes (String.ofList (first ++ headChars rest)) ++ (13 :: 10 :: 13 :: 10 :: body))] =
      some ⟨String.ofList path, rest.filterMap headerOf, body⟩ := by
  have hbytes : strBytes (String.ofList (first ++ headChars rest)) =
      first.flatMap String.utf8EncodeChar ++ headBytes rest := by
    have hreturn : String.utf8EncodeChar '\r' = [13] := by decide
    have hfeed : String.utf8EncodeChar '\n' = [10] := by decide
    rw [strBytes_ofList, List.flatMap_append, headChars, List.flatMap_assoc, headBytes]
    simp [hreturn, hfeed]
  have hend : headEnd (strBytes (String.ofList (first ++ headChars rest)) ++ (13 :: 10 :: 13 :: 10 :: body)) =
      some (strBytes (String.ofList (first ++ headChars rest))).length := by
    rw [hbytes, List.append_assoc, headEnd_append hfirst.no_return, headEnd_lines hrest, Option.map_some,
      List.length_append, Nat.add_comm]
  have hread : readHead [] [some (strBytes (String.ofList (first ++ headChars rest)) ++
      (13 :: 10 :: 13 :: 10 :: body))] = some (strBytes (String.ofList (first ++ headChars rest)) ++
        (13 :: 10 :: 13 :: 10 :: body), (strBytes (String.ofList (first ++ headChars rest))).length, []) := by
    rw [readHead, List.nil_append, if_neg (by simp), hend]
  have hlines : splitLines (first ++ headChars rest) = first :: rest :=
    splitLines_append (fun c hc => (hfirst.2 c hc).2) (splitLines_headChars hrest)
  have hdrop : (strBytes (String.ofList (first ++ headChars rest)) ++ (13 :: 10 :: 13 :: 10 :: body)).drop
      ((strBytes (String.ofList (first ++ headChars rest))).length + 4) = body := by
    rw [← List.drop_drop, List.drop_left]
    rfl
  rw [readHttpRequest, hread]
  simp only [Option.bind_eq_bind, Option.bind_some, List.take_left, fromUtf8_strBytes, String.toList_ofList, hlines,
    List.headD_cons, List.tail_cons, hpath, hlength, hdrop, readBody, List.take_length, if_neg (Nat.not_lt.mpr hmax)]
  rfl

/-! ## Requests that are executed -/

structure ManagementState where
  admins : HashSet PublicKey
  inner : Inner

/-- What the endpoint uses from outside: URLs, base64, JSON, hash and signatures, and `serde_json::from_slice` of
    a request, the error by its text. -/
structure Service where
  out : Outside
  engine : Base64Engine
  json : JsonCodec
  crypto : Crypto
  fromSlice : Bytes → Except String Request

/-- `AuthError` of the management endpoint. -/
inductive AuthError where
  | missingAuthorization
  | http (e : HttpAuthError)
  | invalidAuthEvent (e : EventError)
  | missingHost
  | url
  | clock
  | notAdmin
  deriving DecidableEq, Repr

/-- What becomes of a connection to the endpoint. -/
inductive Outcome where
  | refused (status : Nat) (message : String)
  | unauthorized (e : AuthError)
  /-- The body is no request; the reply is an error. -/
  | unread (response : Response)
  | executed (request : Request) (response : Response)

def orElse {α : Type} (e : AuthError) : Option α → Except AuthError α
  | some a => .ok a
  | none => .error e

/-- `nip86::CONTENT_TYPE`. -/
def contentType : String := "application/nostr+json+rpc"

section Handling

variable (svc : Service) (now : Option Timestamp)

/-- `authorize_management`. -/
def authorizeManagement (request : HttpRequest) (mgmt : ManagementState) : Except AuthError Unit := do
  let header ← orElse .missingAuthorization (request.header "authorization")
  let event ← (Nip98.parseAuthorizationHeader svc.engine svc.json header).mapError .http
  (event.verify svc.crypto).mapError .invalidAuthEvent
  let bundle ← (HttpAuthRequest.fromEvent (parseUrl svc.out) event).mapError .http
  let host ← orElse .missingHost (request.header "host")
  -- the url is put together as the client must have seen it
  let url ← orElse .url (parseUrl svc.out ("http://" ++ host ++ request.path))
  let now ← orElse .clock now
  (bundle.validate svc.crypto event.createdAt now Nip98.defaultTimestampSkewSecs url .post
    (some request.body)).mapError .http
  -- who signed is checked last
  if mgmt.admins.contains event.pubkey then .ok () else .error .notAdmin

/-- `handle_management_post`: the store afterwards, and what the client is told. -/
def handleManagementPost (management : Option ManagementState) (reads : List Read) :
    Option ManagementState × Outcome :=
  match readHttpRequest reads with
  | none => (management, .refused 400 "malformed request")
  | some request =>
      match management with
      | none => (management, .refused 404 "management api is not enabled")
      | some mgmt =>
          -- parameters of the content type are let through
          if contentType.toList.isPrefixOf ((request.header "content-type").getD "").toList then
            match authorizeManagement svc now request mgmt with
            | .error e => (management, .unauthorized e)
            | .ok () =>
                match svc.fromSlice request.body with
                | .ok rpc =>
                    let (inner, response) := handleRequest svc.out mgmt.inner rpc
                    (some { mgmt with inner := inner }, .executed rpc response)
                | .error text => (management, .unread (.err ("invalid request body: " ++ text)))
          else (management, .refused 415 "expected application/nostr+json+rpc")

end Handling

/-! ### Who is let in -/

/-- The header carries this event. -/
def Carries (svc : Service) (request : HttpRequest) (event : Event) : Prop :=
  ∃ header, request.header "authorization" = some header ∧
    Nip98.parseAuthorizationHeader svc.engine svc.json header = .ok event

/-- The URL of a request. -/
def Targets (svc : Service) (request : HttpRequest) (url : Url) : Prop :=
  ∃ host, request.header "host" = some host ∧ parseUrl svc.out ("http://" ++ host ++ request.path) = some url

/-- An admin signed for a `POST` to this URL at about this time. -/
structure Authorized (svc : Service) (now : Option Timestamp) (mgmt : ManagementState) (request : HttpRequest)
    (event : Event) : Prop where
  carried : Carries svc request event
  genuine : event.verify svc.crypto = .ok ()
  kind : event.kind = .httpAuth
  admin : event.pubkey ∈ mgmt.admins
  fresh : ∃ t, now = some t ∧ HttpAuthRequest.absDiff event.createdAt t ≤ Nip98.defaultTimestampSkewSecs
  url : ∃ url, Targets svc request url ∧ (Nip98.customValue event.tags "u").bind (parseUrl svc.out) = some url
  method : (Nip98.customValue event.tags "method").map HttpMethod.parse = some .post

/-- The payload tag that is looked at is not of another body. -/
def Agrees (svc : Service) (event : Event) (body : Bytes) : Prop :=
  ∀ hex, Nip98.customValue event.tags "payload" = some hex →
    Nip98.parseSha256Hex hex = .ok (svc.crypto.sha256 body)

section Admission

variable {svc : Service} {now : Option Timestamp} {mgmt : ManagementState} {request : HttpRequest}

theorem orElse_ok_iff {α : Type} {e : AuthError} {x : Option α} {a : α} : orElse e x = .ok a ↔ x = some a := by
  cases x with
  | none => simp [orElse]
  | some b => simp [orElse]

/-- **The checks, read together.** -/
theorem authorizeManagement_ok_iff : authorizeManagement svc now request mgmt = .ok () ↔
    ∃ event, Authorized svc now mgmt request event ∧ Agrees svc event request.body := by
  simp only [authorizeManagement, bind_ok_iff, orElse_ok_iff, mapError_ok_iff]
  constructor
  · rintro ⟨header, hheader, event, hevent, ⟨⟩, hverify, bundle, hbundle, host, hhost, url, hurl, t, hnow, ⟨⟩,
      hvalidate, hadmin⟩
    obtain ⟨hkind, hfresh, names⟩ := Nip98.accepted_iff.mp ⟨bundle, hbundle, hvalidate⟩
    have hmem : event.pubkey ∈ mgmt.admins := by
      split at hadmin
      next hcontains => exact hcontains
      next => cases hadmin
    exact ⟨event, ⟨⟨header, hheader, hevent⟩, hverify, hkind, hmem, ⟨t, hnow, hfresh⟩,
      ⟨url, ⟨host, hhost, hurl⟩, names.url⟩, names.method⟩, names.payload⟩
  · rintro ⟨event, authorized, hagrees⟩
    obtain ⟨header, hheader, hevent⟩ := authorized.carried
    obtain ⟨t, hnow, hfresh⟩ := authorized.fresh
    obtain ⟨url, ⟨host, hhost, hurl⟩, hnamed⟩ := authorized.url
    obtain ⟨bundle, hbundle, hvalidate⟩ :=
      Nip98.accepted_iff.mpr ⟨authorized.kind, hfresh, ⟨hnamed, authorized.method, hagrees⟩⟩
    exact ⟨header, hheader, event, hevent, (), authorized.genuine, bundle, hbundle, host, hhost, url, hurl, t, hnow,
      (), hvalidate, if_pos authorized.admin⟩

/-- One header carries one event. -/
theorem Carries.unique {event event' : Event} (h : Carries svc request event) (h' : Carries svc request event') :
    event = event' := by
  obtain ⟨header, hheader, hevent⟩ := h
  obtain ⟨header', hheader', hevent'⟩ := h'
  obtain rfl : header = header' := Option.some.inj (hheader.symm.trans hheader')
  exact Except.ok.inj (hevent.symm.trans hevent')

variable {management : Option ManagementState} {reads : List Read}

/-- **What is executed**: a readable body, of the right type, that is let in. -/
theorem executed_iff {rpc : Request} {response : Response} :
    (handleManagementPost svc now management reads).2 = .executed rpc response ↔
    ∃ mgmt request, management = some mgmt ∧ readHttpRequest reads = some request ∧
      contentType.toList.isPrefixOf ((request.header "content-type").getD "").toList = true ∧
      authorizeManagement svc now request mgmt = .ok () ∧ svc.fromSlice request.body = .ok rpc ∧
      response = (handleRequest svc.out mgmt.inner rpc).2 := by
  unfold handleManagementPost
  cases hread : readHttpRequest reads with
  | none => simp
  | some request =>
      cases management with
      | none => simp
      | some mgmt =>
          simp only [Option.some.injEq, exists_and_left, exists_eq_left']
          split
          next htype =>
            cases hauth : authorizeManagement svc now request mgmt with
            | error e => simp [htype]
            | ok u =>
                cases hbody : svc.fromSlice request.body with
                | error text => simp
                | ok found =>
                    simp only [Outcome.executed.injEq, htype, Except.ok.injEq, true_and]
                    constructor
                    · rintro ⟨rfl, rfl⟩
                      exact ⟨rfl, rfl⟩
                    · rintro ⟨rfl, rfl⟩
                      exact ⟨rfl, rfl⟩
          next htype => simp [htype]

/-- What is not executed changes nothing. -/
theorem unchanged_of_not_executed
    (h : ∀ rpc response, (handleManagementPost svc now management reads).2 ≠ .executed rpc response) :
    (handleManagementPost svc now management reads).1 = management := by
  unfold handleManagementPost at h ⊢
  split
  · rfl
  · split
    · rfl
    · split
      · split
        · rfl
        · split
          · simp_all
          · rfl
      · rfl

end Admission

/-! ## Bodies -/

/-- Some payload tag of the event is the hash of the body. -/
def NamesBody (svc : Service) (event : Event) (body : Bytes) : Prop :=
  ∃ tag ∈ event.tags.items, tag.name = "payload" ∧
    ∃ hex, tag.content = some hex ∧ Nip98.parseSha256Hex hex = .ok (svc.crypto.sha256 body)

/-- **Nothing is executed but what an admin signed for**, its body included. -/
def Guarded (svc : Service) (now : Option Timestamp) (management : Option ManagementState) (reads : List Read) :
    Prop :=
  ∀ rpc response, (handleManagementPost svc now management reads).2 = .executed rpc response →
    ∃ mgmt request event, management = some mgmt ∧ readHttpRequest reads = some request ∧
      svc.fromSlice request.body = .ok rpc ∧ Authorized svc now mgmt request event ∧
      NamesBody svc event request.body

/-- A readable request of the right type that an admin signed for but for the body: the payload tag that is looked
    at says nothing, and no other names the body. -/
structure Unbound (svc : Service) (now : Option Timestamp) (mgmt : ManagementState) (request : HttpRequest)
    (event : Event) : Prop where
  typed : contentType.toList.isPrefixOf ((request.header "content-type").getD "").toList = true
  readable : ∃ rpc, svc.fromSlice request.body = .ok rpc
  authorized : Authorized svc now mgmt request event
  silent : Nip98.customValue event.tags "payload" = none
  unnamed : ¬ NamesBody svc event request.body

theorem namesBody_of_agrees {svc : Service} {event : Event} {body : Bytes} {hex : String}
    (hhex : Nip98.customValue event.tags "payload" = some hex) (h : Agrees svc event body) :
    NamesBody svc event body := by
  obtain ⟨tag, hfind, hcontent⟩ := Option.bind_eq_some_iff.mp hhex
  have hname : tag.name = "payload" := by simpa using List.find?_some hfind
  exact ⟨tag, List.mem_of_find?_eq_some hfind, hname, hex, hcontent, h hex hhex⟩

/-- **The signature covers the body exactly when the payload tag is there to be compared.**

    A body is executed exactly if the request authorizes it (`executed_iff`). A payload tag that is there is
    compared with the body, so only one that is missing leaves the body unbound. -/
theorem guarded_iff (svc : Service) (now : Option Timestamp) (management : Option ManagementState)
    (reads : List Read) : Guarded svc now management reads ↔
    ∀ mgmt request event, management = some mgmt → readHttpRequest reads = some request →
      ¬ Unbound svc now mgmt request event := by
  constructor
  · rintro guarded mgmt request event rfl hread unbound
    obtain ⟨rpc, hbody⟩ := unbound.readable
    have hagrees : Agrees svc event request.body := by
      intro hex hhex
      rw [unbound.silent] at hhex
      cases hhex
    have hauth := authorizeManagement_ok_iff.mpr ⟨event, unbound.authorized, hagrees⟩
    obtain ⟨mgmt', request', event', -, hread', -, hauth', hnames⟩ :=
      guarded rpc _ (executed_iff.mpr ⟨mgmt, request, rfl, hread, unbound.typed, hauth, hbody, rfl⟩)
    obtain rfl : request = request' := Option.some.inj (hread.symm.trans hread')
    rw [hauth'.carried.unique unbound.authorized.carried] at hnames
    exact unbound.unnamed hnames
  · intro h rpc response hexecuted
    obtain ⟨mgmt, request, hmgmt, hread, htype, hauth, hbody, -⟩ := executed_iff.mp hexecuted
    obtain ⟨event, authorized, hagrees⟩ := authorizeManagement_ok_iff.mp hauth
    refine ⟨mgmt, request, event, hmgmt, hread, hbody, authorized, ?_⟩
    by_contra hunnamed
    refine h mgmt request event hmgmt hread ⟨htype, ⟨rpc, hbody⟩, authorized, ?_, hunnamed⟩
    cases hpayload : Nip98.customValue event.tags "payload" with
    | none => rfl
    | some hex => exact absurd (namesBody_of_agrees hpayload hagrees) hunnamed

namespace Sample

open Nula.Sample

/-- The canonical form of an event for a `POST` to the endpoint, with no payload tag. -/
def postText : String :=
  "[0,\"f9308a019258c31049344f85f89d5229b531c845836f99b08601f113bce036f9\",1700000000,27235," ++
    "[[\"u\",\"http://127.0.0.1:8080/\"],[\"method\",\"POST\"]],\"\"]"

/-- It is `carol`'s. -/
def post : Event where
  id := ⟨hexBytes "972396df27f4124da82c0316ebca4b8c83ddd2b3d6a71b6c081fca9672e05f2f", by decide +kernel⟩
  pubkey := carol
  createdAt := 1700000000
  kind := .httpAuth
  tags := ⟨[⟨["u", "http://127.0.0.1:8080/"], by decide⟩, ⟨["method", "POST"], by decide⟩]⟩
  content := ""
  sig :=
    ⟨hexBytes ("d8f5c70c18edf4a324d4679811233ae029e4b2283e6862214fe2ec6c9c0fb707" ++
      "fbf7547e24feb9f680e8c5ea7acbfb1e38601f1d410d561fc00f545ef95c209b"), by decide +kernel⟩

/-- The body of the request. -/
def bodyText : String := "\x7b\"method\":\"supportedmethods\",\"params\":[]\x7d"

/-- Primitives that know this event. -/
def service : Service where
  out := { Sample.out with urls := { Sample.out.urls with parse := fun text => .ok ⟨text⟩ } }
  engine := Base64.standard
  json := Json.codec
  crypto := {
    sha256 := fun b => if b = strBytes postText then post.id.bytes else List.replicate 32 0
    sha256_size := fun b => by
      split
      · exact post.id.size
      · decide
    verifySchnorr := fun sig message pubkey => sig = post.sig ∧ message = post.id.bytes ∧ pubkey = carol }
  fromSlice b := if b = strBytes bodyText then .ok ⟨"supportedmethods", []⟩ else .error "expected value"

/-- A relay that carol administers. -/
def mgmt : ManagementState := ⟨{carol}, .default⟩

/-- Her authorization. -/
def header : String := Nip98.authorizationHeader service.engine service.json post

/-- The line of the request. -/
def first : List Char := "POST / HTTP/1.1".toList

/-- The other lines of its head. -/
def rest : List (List Char) :=
  ["Host: 127.0.0.1:8080".toList, "Content-Type: application/nostr+json+rpc".toList,
    "Authorization: ".toList ++ header.toList, "Content-Length: 41".toList]

/-- What the socket yields. -/
def reads : List Read :=
  [some (strBytes (String.ofList (first ++ headChars rest)) ++ (13 :: 10 :: 13 :: 10 :: strBytes bodyText))]

/-- What it is read as. -/
def request : HttpRequest where
  path := "/"
  headers := [("host", "127.0.0.1:8080"), ("content-type", contentType), ("authorization", header),
    ("content-length", "41")]
  body := strBytes bodyText

theorem plain_of_all {line : List Char} (h : line.all (fun c => decide (c.val ≤ 127) && decide (c ≠ '\r')) = true) :
    ∀ c ∈ line, c.val ≤ 127 ∧ c ≠ '\r' := by
  simpa using h

theorem plain_header : ∀ c ∈ header.toList, c.val ≤ 127 ∧ c ≠ '\r' := by
  intro c hc
  rw [header, Nip98.authorizationHeader, String.toList_append] at hc
  rcases List.mem_append.mp hc with hscheme | htoken
  · exact plain_of_all (by decide +kernel) c hscheme
  · obtain ⟨hlow, hhigh⟩ := Nip98.visible_base64 htoken
    refine ⟨UInt32.le_iff_toNat_le.mpr (Nat.le_of_lt hhigh |>.trans ?_), ?_⟩
    · decide
    · rintro rfl
      exact absurd hlow (by decide)

/-- The scheme begins with a letter, and the token ends with a character of base64. -/
theorem visible_ends : ∀ c, (header.toList.head? = some c ∨ header.toList.getLast? = some c) → Json.Visible c := by
  have hchars : header.toList = Nip98.authSchemePrefix.toList ++
      (service.engine.encode (strBytes (post.asJson service.json))).toList := by
    rw [header, Nip98.authorizationHeader, String.toList_append]
  have htoken : (service.engine.encode (strBytes (post.asJson service.json))).toList ≠ [] := by
    intro hnil
    have hlength := service.engine.length_encode (strBytes (post.asJson service.json))
    have hbytes : 0 < (strBytes (post.asJson service.json)).length := by
      refine List.length_pos_of_ne_nil (fun hempty => ?_)
      have htext : post.asJson service.json = "" := strBytes_inj (hempty.trans (by decide +kernel))
      have hread := Event.fromJson_asJson service.json post
      rw [htext, Event.fromJson, show service.json.read "" = none by decide +kernel] at hread
      cases hread
    rw [hnil, List.length_nil] at hlength
    omega
  rintro c (hc | hc)
  · rw [hchars] at hc
    cases hc
    exact ⟨by decide, by decide⟩
  · rw [hchars, List.getLast?_append_of_ne_nil _ htoken] at hc
    exact Nip98.visible_base64 (List.mem_of_getLast? hc)

/-- The header line is read: the scheme is visible, and so is the end of the token. -/
theorem headerOf_authorization : headerOf ("Authorization: ".toList ++ header.toList) =
    some ("authorization", header) := by
  have hends : trim (String.ofList (' ' :: header.toList)) = header := by
    have hspace : trim (String.ofList (' ' :: header.toList)) = trim header := by
      rw [trim, trimChars, String.toList_ofList, List.dropWhile_cons_of_pos (by decide)]
      rfl
    rw [hspace]
    exact trim_of_visible visible_ends
  have hname : toAsciiLowercase (trim (String.ofList "Authorization".toList)) = "authorization" := by decide +kernel
  have hsplit : splitOnce ':' ("Authorization: ".toList ++ header.toList) =
      some ("Authorization".toList, ' ' :: header.toList) := by
    have hcolon : "Authorization: ".toList = "Authorization".toList ++ [':', ' '] := by decide +kernel
    rw [hcolon, List.append_assoc]
    exact splitOnce_append (by decide +kernel) _
  simp only [headerOf, hsplit, Option.map_some, hname, hends]

theorem carries_post : Carries service request post :=
  ⟨header, by simp [HttpRequest.header, request], Nip98.parse_authorizationHeader _ _ _⟩

theorem fromSlice_body : service.fromSlice request.body = .ok ⟨"supportedmethods", []⟩ := by
  simp [service, request]

theorem read_request : readHttpRequest reads = some request := by
  have hheaders : rest.filterMap headerOf = request.headers := by
    have hhost : headerOf "Host: 127.0.0.1:8080".toList = some ("host", "127.0.0.1:8080") := by decide +kernel
    have htype : headerOf "Content-Type: application/nostr+json+rpc".toList = some ("content-type", contentType) := by
      decide +kernel
    have hlength : headerOf "Content-Length: 41".toList = some ("content-length", "41") := by decide +kernel
    simp only [rest, List.filterMap_cons, List.filterMap_nil, hhost, htype, headerOf_authorization, hlength, request]
  have hread : readHttpRequest reads = some ⟨String.ofList ['/'], rest.filterMap headerOf, strBytes bodyText⟩ := by
    refine readHttpRequest_lines ?_ ?_ ?_ ?_ ?_
    · exact ⟨by decide +kernel, plain_of_all (by decide +kernel)⟩
    · rintro line hline
      simp only [rest, List.mem_cons, List.not_mem_nil, or_false] at hline
      rcases hline with rfl | rfl | rfl | rfl
      · exact ⟨by decide +kernel, plain_of_all (by decide +kernel)⟩
      · exact ⟨by decide +kernel, plain_of_all (by decide +kernel)⟩
      · refine ⟨by simp, fun c hc => (List.mem_append.mp hc).elim (fun hc => ?_) (plain_header c)⟩
        exact plain_of_all (by decide +kernel) c hc
      · exact ⟨by decide +kernel, plain_of_all (by decide +kernel)⟩
    · decide +kernel
    · rw [hheaders]
      decide +kernel
    · decide +kernel
  rw [hread, hheaders]
  rfl

end Sample

/-- A body that no signature names is executed. -/
theorem unnamed_body_executed : ¬ Guarded Sample.service (some 1700000000) (some Sample.mgmt) Sample.reads := by
  intro guarded
  have hauth : authorizeManagement Sample.service (some 1700000000) Sample.request Sample.mgmt = .ok () := by
    refine authorizeManagement_ok_iff.mpr ⟨Sample.post, ⟨Sample.carries_post, ?_, ?_, ?_, ?_, ?_, ?_⟩, ?_⟩
    · decide +kernel
    · rfl
    · decide +kernel
    · exact ⟨_, rfl, by decide +kernel⟩
    · exact ⟨⟨"http://127.0.0.1:8080/"⟩, ⟨"127.0.0.1:8080", by decide +kernel, by decide +kernel⟩, by decide +kernel⟩
    · decide +kernel
    · have hsilent : Nip98.customValue Sample.post.tags "payload" = none := by decide +kernel
      intro hex hhex
      rw [hsilent] at hhex
      cases hhex
  obtain ⟨mgmt, request, event, -, hread, -, authorized, tag, htag, hname, -⟩ := guarded ⟨"supportedmethods", []⟩ _
    (executed_iff.mpr ⟨Sample.mgmt, Sample.request, rfl, Sample.read_request, by decide +kernel, hauth,
      Sample.fromSlice_body, rfl⟩)
  obtain rfl : Sample.request = request := Option.some.inj (Sample.read_request.symm.trans hread)
  rw [authorized.carried.unique Sample.carries_post] at htag
  have hnone : ∀ tag ∈ Sample.post.tags.items, tag.name ≠ "payload" := by decide +kernel
  exact hnone tag htag hname

end Nula.Management
