import Nula.Core.GiftWrap
import Nula.Gossip.Publish
import Nula.Lib.Batch

/-!
# `Sdk.PrivateMessage` — sending a private message

`Client::send_private_msg` and `send_private_msg_to` (`nula/src/nips/nip17.rs`) wrap a message for its sender and
for each recipient, and send the wraps one after another. With a router every wrap goes to the DM relays of its
reader (`gossip_send_event`), which may be missing or not to be had; the wraps sent before are then out already.

## Contents
- **The calls.** `buildWraps`, `sendWraps` and the two of them.
- **One wrap.** It is offered to some relay, or to none and fails (`atomic_sendWrap`).
- **All wraps.** They are well sent when the first is not sent at all or all are (`wellSent_sendWraps_iff`).
- **A route after a route.** Two routes one after the other fit in the pool when their union does
  (`allFit_union_iff`), so all wraps go out when all readers are deliverable (`succeeds_iff`).
- **Main result.** `wellSent_iff`.
-/

namespace Nula.Sdk

open Std Nip17 Nip59
open Gossip hiding Nip17Error
open Pool (RelayPool RelayEntry PoolError)

/-! ## The calls (`nips/nip17.rs`) -/

/-- What the two calls fail with. -/
inductive PrivateMsgError where
  | nip17 (e : Nip17Error)
  | relayUrl (text : String)
  | client (e : ClientError)

/-- `Output<Vec<EventId>>`. -/
structure MergedOutput where
  val : List EventId
  success : HashSet RelayUrl
  failed : HashMap RelayUrl String

/-- What a wrap adds to the output. -/
def MergedOutput.merge (merged : MergedOutput) (output : Output) : MergedOutput where
  val := merged.val ++ [output.val]
  success := merged.success ∪ output.success
  failed := output.failed.toList.foldl (fun failed entry => failed.insert entry.1 entry.2) merged.failed

/-- What the caller hands over. -/
structure PrivateMsg where
  senderKeys : Keys
  recipients : List Recipient
  message : String
  replyTo : Option ReplyTo

/-- The calls of `Relay::publish` with the wrap of each, in order, and the result. -/
structure Sending where
  pool : RelayPool
  published : List (Event × RelayUrl)
  result : Except PrivateMsgError MergedOutput

section

variable (crypto : Curve) (json : JsonCodec) (urls : UrlCrate) {D : Type}

/-- `build_wraps`; `timestamps` is what `Timestamps::random_past` returns. -/
def buildWraps (draws : Nat → Draws) (timestamps : Except Nip59Error Timestamps) (msg : PrivateMsg) :
    Except Nip17Error (List Event) :=
  if msg.recipients = [] then .error .noRecipients
  else match timestamps with
    | .error e => .error (.wrap e)
    | .ok timestamps =>
        let rumor := buildChatMessageRumor crypto msg.senderKeys msg.recipients msg.message timestamps.rumor none
          msg.replyTo
        wrapForMany crypto json draws msg.senderKeys msg.recipients rumor timestamps

/-- One round of the loop of `send_wraps`: `send_event_to` or `send_event`. -/
def sendWrap (w : Event → World) (targets : Option (List RelayUrl)) (client : Client D) (wrap : Event) :
    Batch.Ran (Client D) (Event × RelayUrl) ClientError Output :=
  let sent := match targets with
    | some targets => (sendEventTo (w wrap) client.pool (targets.foldl (fun set url => set.insert url) ∅) wrap).lift
    | none => client.sendEvent urls (w wrap) wrap
  ⟨{ client with pool := sent.pool }, sent.published.map (fun url => (wrap, url)), sent.result⟩

/-- `send_wraps`. -/
def sendWraps (w : Event → World) (targets : Option (List RelayUrl)) (client : Client D) (wraps : List Event) :
    Sending :=
  let ran := Batch.run (sendWrap urls w targets) client wraps
  ⟨ran.state.pool, ran.effects, match ran.result with
    | .error e => .error (.client e)
    | .ok outputs => .ok (outputs.foldl MergedOutput.merge ⟨[], ∅, ∅⟩)⟩

/-- `Client::send_private_msg`. -/
def sendPrivateMsg (draws : Nat → Draws) (timestamps : Except Nip59Error Timestamps) (w : Event → World)
    (client : Client D) (msg : PrivateMsg) : Sending :=
  match buildWraps crypto json draws timestamps msg with
  | .error e => ⟨client.pool, [], .error (.nip17 e)⟩
  | .ok wraps => sendWraps urls w none client wraps

/-- `Client::send_private_msg_to`; `targets` is what the given urls parse to. -/
def sendPrivateMsgTo (draws : Nat → Draws) (timestamps : Except Nip59Error Timestamps) (w : Event → World)
    (client : Client D) (targets : Except String (List RelayUrl)) (msg : PrivateMsg) : Sending :=
  match targets with
  | .error text => ⟨client.pool, [], .error (.relayUrl text)⟩
  | .ok targets =>
      match buildWraps crypto json draws timestamps msg with
      | .error e => ⟨client.pool, [], .error (.nip17 e)⟩
      | .ok wraps => sendWraps urls w (some targets) client wraps

/-! ## What a call owes its caller -/

/-- The wrap is for the recipient. -/
structure Addressed (recipient : Recipient) (wrap : Event) : Prop where
  kind : wrap.kind = .giftWrap
  tags : wrap.tags = ⟨[recipientTag recipient.publicKey recipient.relayHint]⟩

/-- A call that failed published nothing. One that succeeded offered a wrap of the sender's own and one for each
    recipient to at least one relay each, and lists their ids in order. -/
structure WellSent (msg : PrivateMsg) (s : Sending) : Prop where
  failed : ∀ e, s.result = .error e → s.published = []
  succeeded : ∀ o, s.result = .ok o → ∃ wraps,
    List.Forall₂ Addressed (⟨msg.senderKeys.publicKey, none⟩ :: msg.recipients) wraps ∧
    (∀ wrap ∈ wraps, ∃ url, (wrap, url) ∈ s.published) ∧ o.val = wraps.map Event.id

end

/-! ## The wraps -/

section Wraps

variable {crypto : Curve} {json : JsonCodec}

/-- A wrap is addressed to the recipient it is for. -/
theorem addressed_wrapFor {draws : Draws} {sender : Keys} {recipient : Recipient} {rumor : UnsignedEvent}
    {timestamps : Timestamps} {wrap : Event}
    (h : wrapFor crypto json draws sender recipient rumor timestamps = .ok wrap) : Addressed recipient wrap := by
  obtain ⟨sealed, _, hwrap⟩ := bind_ok_iff.mp h
  obtain ⟨hkind, htags⟩ := address_createGiftWrap json hwrap
  exact ⟨hkind, htags⟩

theorem addressed_wrapEach {draws : Nat → Draws} {sender : Keys} {rumor : UnsignedEvent} {timestamps : Timestamps}
    {recipients : List Recipient} {n : Nat} {wraps : List Event}
    (h : wrapEach crypto json draws sender rumor timestamps n recipients = .ok wraps) :
    List.Forall₂ Addressed recipients wraps := by
  induction recipients generalizing n wraps with
  | nil =>
      cases h
      exact .nil
  | cons recipient rest ih =>
      obtain ⟨wrap, hwrap, hrest⟩ := bind_ok_iff.mp h
      obtain ⟨wraps', hwraps, hcons⟩ := bind_ok_iff.mp hrest
      cases hcons
      exact .cons (addressed_wrapFor hwrap) (ih hwraps)

/-- The first is addressed to the sender, for their own devices. -/
theorem addressed_wrapForMany {draws : Nat → Draws} {sender : Keys} {rumor : UnsignedEvent} {timestamps : Timestamps}
    {recipients : List Recipient} {wraps : List Event}
    (h : wrapForMany crypto json draws sender recipients rumor timestamps = .ok wraps) :
    List.Forall₂ Addressed (⟨sender.publicKey, none⟩ :: recipients) wraps := by
  unfold wrapForMany at h
  split at h
  · cases h
  · obtain ⟨selfSeal, _, hrest⟩ := bind_ok_iff.mp (mapError_ok_iff.mp h)
    obtain ⟨own, hown, hrest'⟩ := bind_ok_iff.mp hrest
    obtain ⟨rest, hwraps, hcons⟩ := bind_ok_iff.mp hrest'
    cases hcons
    obtain ⟨hkind, htags⟩ := address_createGiftWrap json hown
    exact .cons ⟨hkind, htags⟩ (addressed_wrapEach hwraps)

/-- One wrap for the sender, then one for each recipient in order. -/
theorem addressed_buildWraps {draws : Nat → Draws} {timestamps : Except Nip59Error Timestamps} {msg : PrivateMsg}
    {wraps : List Event} (h : buildWraps crypto json draws timestamps msg = .ok wraps) :
    List.Forall₂ Addressed (⟨msg.senderKeys.publicKey, none⟩ :: msg.recipients) wraps := by
  unfold buildWraps at h
  split at h
  · cases h
  · split at h
    · cases h
    · exact addressed_wrapForMany h

end Wraps

/-! ## One wrap -/

section OneWrap

variable {urls : UrlCrate} {D : Type} {w : Event → World} {client : Client D} {gossip : Inner D} {wrap : Event}

theorem val_report (publish : RelayUrl → Except String Unit) (relays : List RelayUrl) (o : Output) :
    (relays.foldl (Output.report publish) o).val = o.val := by
  refine Buckets.foldl_keeps (P := fun o' : Output => o'.val = o.val) (fun o' url h => ?_) relays rfl
  rw [Output.report]
  split
  · exact h
  · exact h

/-- The relays are some, and the pool holds them all. -/
def Held (pool : RelayPool) (relays : HashSet RelayUrl) : Prop :=
  relays.isEmpty = false ∧ ∀ r ∈ relays, r ∈ pool.relays

theorem sendEventTo_of_held {w : World} {pool : RelayPool} {relays : HashSet RelayUrl} {e : Event}
    (h : Held pool relays) : (sendEventTo w pool relays e).published = HashSet.iter relays w.queued ∧
      ∃ o, (sendEventTo w pool relays e).result = .ok o ∧ o.val = e.id := by
  unfold sendEventTo
  rw [if_neg (by simp [h.1]), queuePublishes_of_all (fun r hr => h.2 r (HashSet.mem_iter.mp hr))]
  exact ⟨rfl, _, rfl, val_report w.publish _ _⟩

/-- If one of them is not in the pool, nothing is. -/
theorem sendEventTo_of_not_held {w : World} {pool : RelayPool} {relays : HashSet RelayUrl} {e : Event}
    (h : ¬ Held pool relays) : (sendEventTo w pool relays e).published = [] ∧
      ∃ err, (sendEventTo w pool relays e).result = .error err := by
  unfold sendEventTo
  split
  · exact ⟨rfl, _, rfl⟩
  · rename_i hne
    split
    · exact ⟨rfl, _, rfl⟩
    · rename_i queued hqueued
      refine absurd ⟨by simpa using hne, fun r hr => ?_⟩ h
      exact (queuePublishes_ok hqueued).2 r (HashSet.mem_iter.mpr hr)

/-- How a wrap is sent: to some relays, with its id, or to none and with an error. -/
structure Offered (wrap : Event) (sent : Sent ClientError) : Prop where
  published : ∃ url, url ∈ sent.published
  result : ∃ o, sent.result = .ok o ∧ o.val = wrap.id

/-- Nothing went out, and the caller is told so. -/
structure Unsent (sent : Sent ClientError) : Prop where
  published : sent.published = []
  result : ∃ e, sent.result = .error e

/-- An event for relays of the pool is offered to each. -/
theorem offered_lift {w : World} {pool : RelayPool} {relays : HashSet RelayUrl} {e : Event} (h : Held pool relays) :
    Offered e (sendEventTo w pool relays e).lift := by
  obtain ⟨hpublished, o, hresult, hval⟩ := sendEventTo_of_held (w := w) (e := e) h
  obtain ⟨r, hr⟩ : ∃ r, r ∈ relays := by
    by_contra hnone
    have hempty := ExtTreeSet.isEmpty_iff.mpr (ExtTreeSet.eq_empty_iff_forall_not_mem.mpr (not_exists.mp hnone))
    rw [h.1] at hempty
    cases hempty
  refine ⟨⟨r, ?_⟩, o, ?_, hval⟩
  · rw [Sent.lift, hpublished]
    exact HashSet.mem_iter.mpr hr
  · rw [Sent.lift, hresult]
    rfl

theorem unsent_lift {w : World} {pool : RelayPool} {relays : HashSet RelayUrl} {e : Event} (h : ¬ Held pool relays) :
    Unsent (sendEventTo w pool relays e).lift := by
  obtain ⟨hpublished, err, hresult⟩ := sendEventTo_of_not_held (w := w) (e := e) h
  refine ⟨hpublished, .pool err, ?_⟩
  rw [Sent.lift, hresult]
  rfl

theorem lift_cases (w : World) (pool : RelayPool) (relays : HashSet RelayUrl) (e : Event) :
    Offered e (sendEventTo w pool relays e).lift ∨ Unsent (sendEventTo w pool relays e).lift := by
  by_cases h : Held pool relays
  · exact Or.inl (offered_lift h)
  · exact Or.inr (unsent_lift h)

/-- **A wrap is offered or unsent**, whichever way it goes. -/
theorem sendEvent_cases (w : World) (client : Client D) (e : Event) :
    Offered e (client.sendEvent urls w e) ∨ Unsent (client.sendEvent urls w e) := by
  rw [Client.sendEvent]
  split
  · rw [Client.gossipSendEvent]
    split
    · exact lift_cases _ _ _ _
    · exact Or.inr ⟨rfl, _, rfl⟩
    · exact lift_cases _ _ _ _
  · exact lift_cases _ _ _ _

/-- The sending of a wrap, as a step of a batch. -/
theorem atomic_sendWrap (w : Event → World) (targets : Option (List RelayUrl)) (client : Client D) (wrap : Event) :
    (sendWrap urls w targets client wrap).Atomic := by
  have hsent : ∀ sent : Sent ClientError, Offered wrap sent ∨ Unsent sent →
      (⟨{ client with pool := sent.pool }, sent.published.map (fun url => (wrap, url)), sent.result⟩ :
        Batch.Ran (Client D) (Event × RelayUrl) ClientError Output).Atomic := by
    rintro sent (h | h)
    · obtain ⟨o, hresult, _⟩ := h.result
      obtain ⟨url, hurl⟩ := h.published
      refine ⟨fun e he => ?_, fun _ _ => ?_⟩
      · cases hresult.symm.trans he
      · exact List.ne_nil_of_mem (List.mem_map_of_mem hurl)
    · obtain ⟨err, hresult⟩ := h.result
      refine ⟨fun _ _ => ?_, fun o ho => ?_⟩
      · show sent.published.map _ = []
        rw [h.published]
        rfl
      · cases hresult.symm.trans ho
  unfold sendWrap
  cases targets with
  | none => exact hsent _ (sendEvent_cases _ _ _)
  | some targets => exact hsent _ (lift_cases _ _ _ _)

/-- What a wrap that was sent leaves. -/
theorem offered_of_sendWrap {targets : Option (List RelayUrl)} {o : Output}
    (h : (sendWrap urls w targets client wrap).result = .ok o) :
    (∃ url, (wrap, url) ∈ (sendWrap urls w targets client wrap).effects) ∧ o.val = wrap.id := by
  have hsent : ∀ sent : Sent ClientError, Offered wrap sent ∨ Unsent sent → sent.result = .ok o →
      (∃ url, (wrap, url) ∈ sent.published.map (fun url => (wrap, url))) ∧ o.val = wrap.id := by
    rintro sent (h | h) hok
    · obtain ⟨o', hresult, hval⟩ := h.result
      obtain ⟨url, hurl⟩ := h.published
      cases hresult.symm.trans hok
      exact ⟨⟨url, List.mem_map_of_mem hurl⟩, hval⟩
    · obtain ⟨err, hresult⟩ := h.result
      cases hresult.symm.trans hok
  unfold sendWrap at h ⊢
  cases targets with
  | none => exact hsent _ (sendEvent_cases _ _ _) h
  | some targets => exact hsent _ (lift_cases _ _ _ _) h

/-! ## All wraps -/

theorem val_merge (outputs : List Output) (merged : MergedOutput) :
    (outputs.foldl MergedOutput.merge merged).val = merged.val ++ outputs.map Output.val := by
  induction outputs generalizing merged with
  | nil => simp
  | cons output rest ih =>
      rw [List.foldl_cons, ih, MergedOutput.merge, List.map_cons, List.append_assoc, List.singleton_append]

/-- **When the wraps are well sent**: the first is not sent at all, or all are. A wrap is sent or leaves no effect, so
    a failed batch is clean exactly if it failed at its first wrap. -/
theorem wellSent_sendWraps_iff {targets : Option (List RelayUrl)} {msg : PrivateMsg} {own : Event} {rest : List Event}
    (haddressed : List.Forall₂ Addressed (⟨msg.senderKeys.publicKey, none⟩ :: msg.recipients) (own :: rest)) :
    WellSent msg (sendWraps urls w targets client (own :: rest)) ↔
      (Batch.Succeeds (sendWrap urls w targets) client [own] →
        Batch.Succeeds (sendWrap urls w targets) client (own :: rest)) := by
  have hatomic : (sendWrap urls w targets client own).Atomic := atomic_sendWrap w targets client own
  have hclean : (∀ e, (Batch.run (sendWrap urls w targets) client (own :: rest)).result = .error e →
      (Batch.run (sendWrap urls w targets) client (own :: rest)).effects = []) ↔
      (Batch.Succeeds (sendWrap urls w targets) client [own] →
        Batch.Succeeds (sendWrap urls w targets) client (own :: rest)) := by
    rw [Batch.run_clean_iff hatomic]
    exact ⟨fun h hown => ⟨hown.1, h hown.1⟩, fun h hown => (h ⟨hown, trivial⟩).2⟩
  rw [← hclean]
  constructor
  · intro h e he
    refine h.failed (.client e) ?_
    rw [sendWraps, he]
  · intro h
    refine ⟨fun e he => ?_, fun o ho => ?_⟩
    · rw [sendWraps] at he
      cases hresult : (Batch.run (sendWrap urls w targets) client (own :: rest)).result with
      | error e' => exact h e' hresult
      | ok outputs =>
          rw [hresult] at he
          cases he
    · rw [sendWraps] at ho
      cases hresult : (Batch.run (sendWrap urls w targets) client (own :: rest)).result with
      | error e' =>
          rw [hresult] at ho
          cases ho
      | ok outputs =>
          rw [hresult] at ho
          cases ho
          have hall := Batch.forall₂_of_run_ok hresult
          refine ⟨own :: rest, haddressed, fun wrap hwrap => ?_, ?_⟩
          · obtain ⟨o, _, s', ho, heffects⟩ := Batch.exists_of_forall₂ hall hwrap
            obtain ⟨⟨url, hurl⟩, _⟩ := offered_of_sendWrap ho
            exact ⟨url, heffects _ hurl⟩
          · rw [val_merge, List.nil_append]
            have hids : List.Forall₂ Eq ((own :: rest).map Event.id) (outputs.map Output.val) := by
              rw [List.forall₂_map_left_iff, List.forall₂_map_right_iff]
              refine hall.imp ?_
              rintro wrap o ⟨s', ho, _⟩
              exact (offered_of_sendWrap ho).2.symm
            rw [List.forall₂_eq_eq_eq] at hids
            exact hids.symm

/-! ## One way for all wraps -/

/-- The caller is told of success exactly if all relays are in the pool. -/
theorem isOk_lift_iff {w : World} {pool : RelayPool} {relays : HashSet RelayUrl} {e : Event} :
    (sendEventTo w pool relays e).lift.result.isOk = true ↔ Held pool relays := by
  by_cases h : Held pool relays
  · obtain ⟨o, hresult, _⟩ := (offered_lift (w := w) (e := e) h).result
    rw [hresult]
    exact iff_of_true rfl h
  · obtain ⟨err, hresult⟩ := (unsent_lift (w := w) (e := e) h).result
    rw [hresult]
    exact iff_of_false nofun h

/-- Sending to relays of the pool leaves it as it is. -/
theorem pool_lift (w : World) (pool : RelayPool) (relays : HashSet RelayUrl) (e : Event) :
    (sendEventTo w pool relays e).lift.pool = pool := by
  show (sendEventTo w pool relays e).pool = pool
  unfold sendEventTo
  split
  · rfl
  · split
    · rfl
    · rfl

/-- Wraps that all go to the same relays, and leave the pool as it is. -/
theorem succeeds_of_same {targets : Option (List RelayUrl)} {own : Event} {wraps : List Event}
    (relays : HashSet RelayUrl) (hsame : ∀ client' : Client D, client'.pool = client.pool →
      client'.gossip = client.gossip → ∀ e, (sendWrap urls w targets client' e).result =
        (sendEventTo (w e) client.pool relays e).lift.result ∧
          (sendWrap urls w targets client' e).state = { client' with pool := client.pool })
    (hown : Batch.Succeeds (sendWrap urls w targets) client [own]) :
    Batch.Succeeds (sendWrap urls w targets) client wraps := by
  refine Batch.succeeds_of_uniform
    (I := fun client' : Client D => client'.pool = client.pool ∧ client'.gossip = client.gossip)
    (p := Held client.pool relays) ?_ ⟨rfl, rfl⟩ ?_
  · rintro client' e ⟨hpool, hgossip⟩
    obtain ⟨hresult, hstate⟩ := hsame client' hpool hgossip e
    rw [hresult, isOk_lift_iff, hstate]
    exact ⟨Iff.rfl, rfl, hgossip⟩
  · obtain ⟨hresult, _⟩ := hsame client rfl rfl own
    have hok := hown.1
    rw [hresult, isOk_lift_iff] at hok
    exact hok

theorem succeeds_of_targets {targets : List RelayUrl} {own : Event} {wraps : List Event}
    (hown : Batch.Succeeds (sendWrap urls w (some targets)) client [own]) :
    Batch.Succeeds (sendWrap urls w (some targets)) client wraps := by
  refine succeeds_of_same (targets.foldl (fun set url => set.insert url) ∅) (fun client' hpool _ e => ?_) hown
  unfold sendWrap
  rw [hpool]
  refine ⟨rfl, ?_⟩
  simp only [pool_lift]

theorem succeeds_of_no_gossip (hgossip : client.gossip = none) {own : Event} {wraps : List Event}
    (hown : Batch.Succeeds (sendWrap urls w none) client [own]) :
    Batch.Succeeds (sendWrap urls w none) client wraps := by
  refine succeeds_of_same ((client.pool.relays.filter (fun _ entry => entry.capabilities.hasAny .write)).keys.foldl
    (fun set url => set.insert url) ∅) (fun client' hpool hgossip' e => ?_) hown
  unfold sendWrap Client.sendEvent
  rw [hgossip'.trans hgossip, hpool]
  refine ⟨rfl, ?_⟩
  simp only [Gossip.sendEvent, pool_lift]

end OneWrap

/-! ## A route after a route -/

section Ensured

variable {policy : Option AdmitPolicy} {p p' : RelayPool} {l m t : List RelayUrl}

/-- The pool with all of the relays. -/
structure Ensured (l : List RelayUrl) (p p' : RelayPool) : Prop where
  mem_iff : ∀ r, r ∈ p'.relays ↔ r ∈ l ∨ r ∈ p.relays
  size : p'.relays.size = p.relays.size + (newRelays p l).length
  options : p'.options = p.options
  shutdown : p'.shutdown = p.shutdown

/-- **Relays that fit are all added**, and take one place each. By induction on the relays, each of which is added or
    was there, since all are there in the end. -/
theorem ensured_of_allFit (hnd : l.Nodup) {s : RelayPool × List RelayUrl} (h : AllFit policy s.1 l) :
    Ensured l s.1 (l.foldl (ensureGossipRelay policy) s).1 := by
  induction l generalizing s with
  | nil => exact ⟨fun r => by simp, rfl, rfl, rfl⟩
  | cons url rest ih =>
      have hall := (ensure_all_iff policy hnd s).mpr h
      obtain ⟨hnot, hnd⟩ := List.nodup_cons.mp hnd
      have hrest : AllFit policy (ensureGossipRelay policy s url).1 rest :=
        (ensure_all_iff policy hnd _).mp (fun r hr => hall r (List.mem_cons_of_mem url hr))
      have hensured := ih hnd hrest
      rw [List.foldl_cons]
      rcases ensureGossipRelay_cases policy s url with ⟨hurl, _, hadded⟩ | ⟨hurl, hsame⟩
      · -- the relay is new, and takes a place
        have hnew : newRelays s.1 (url :: rest) = url :: newRelays s.1 rest := by simp [newRelays, hurl]
        refine ⟨fun r => ?_, ?_, hensured.options.trans hadded.options, hensured.shutdown.trans hadded.shutdown⟩
        · rw [hensured.mem_iff, hadded.mem_iff, List.mem_cons]
          tauto
        · rw [hensured.size, hadded.size, newRelays_added hadded hnot, hnew, List.length_cons]
          omega
      · -- the relay is there, or could not be there in the end
        have hurl : url ∈ s.1.relays := by
          have hin := (mem_ensure_head policy s hnot).mp (hall url List.mem_cons_self)
          rcases hurl with hurl | hno
          · exact hurl
          · exact hin.resolve_right hno
        have hnew : newRelays s.1 (url :: rest) = newRelays s.1 rest := by simp [newRelays, hurl]
        rw [hsame] at hensured
        refine ⟨fun r => ?_, ?_, hensured.options, hensured.shutdown⟩
        · rw [hensured.mem_iff, List.mem_cons]
          constructor
          · tauto
          · rintro ((rfl | hr) | hr)
            · exact Or.inr hurl
            · exact Or.inl hr
            · exact Or.inr hr
        · rw [hensured.size, hnew]

theorem fits_ensured (h : Ensured l p p') (n : Nat) : Fits p' n ↔ Fits p ((newRelays p l).length + n) := by
  unfold Fits
  rw [h.options, h.size]
  refine forall_congr' (fun max => forall_congr' (fun _ => ?_))
  omega

/-- Relays are new when they are not in the pool. -/
theorem mem_newRelays {r : RelayUrl} : r ∈ newRelays p l ↔ r ∈ l ∧ r ∉ p.relays := by
  simp [newRelays]

theorem nodup_newRelays (h : l.Nodup) : (newRelays p l).Nodup := h.filter _

/-- What is new of two routes is new of the first, or new of the second after the first. -/
theorem newRelays_union (h : Ensured l p p') (hl : l.Nodup) (hm : m.Nodup) (ht : t.Nodup)
    (hunion : ∀ r, r ∈ t ↔ r ∈ l ∨ r ∈ m) : (newRelays p t).Perm (newRelays p l ++ newRelays p' m) := by
  refine (List.perm_ext_iff_of_nodup (nodup_newRelays ht) ?_).mpr (fun r => ?_)
  · refine List.nodup_append.mpr ⟨nodup_newRelays hl, nodup_newRelays hm, ?_⟩
    rintro a ha b hb rfl
    exact (mem_newRelays.mp hb).2 ((h.mem_iff a).mpr (Or.inl (mem_newRelays.mp ha).1))
  · rw [List.mem_append, mem_newRelays, mem_newRelays, mem_newRelays, hunion, h.mem_iff]
    tauto

/-- Fewer relays fit as well. -/
theorem allFit_subset (h : AllFit policy p t) (hl : l.Nodup) (hsub : ∀ r ∈ l, r ∈ t) : AllFit policy p l := by
  have hnew : ∀ r ∈ newRelays p l, r ∈ newRelays p t := by
    intro r hr
    obtain ⟨hr, hout⟩ := mem_newRelays.mp hr
    exact mem_newRelays.mpr ⟨hsub r hr, hout⟩
  have hlength := ((nodup_newRelays hl (p := p)).subperm hnew).length_le
  refine ⟨fun r hr => h.admitted r (hnew r hr), fun hne => ?_⟩
  obtain ⟨r, hr⟩ := List.exists_mem_of_ne_nil _ hne
  obtain ⟨hopen, hfits⟩ := h.room (List.ne_nil_of_mem (hnew r hr))
  exact ⟨hopen, hfits.mono hlength⟩

/-- **Two routes one after the other fit exactly when their union does.** What is new of the second route, behind the
    first, is what is new of the union without the first. -/
theorem allFit_union_iff (hl : l.Nodup) (hm : m.Nodup) (ht : t.Nodup) (hunion : ∀ r, r ∈ t ↔ r ∈ l ∨ r ∈ m)
    (s : RelayPool × List RelayUrl) :
    AllFit policy s.1 l ∧ AllFit policy (l.foldl (ensureGossipRelay policy) s).1 m ↔ AllFit policy s.1 t := by
  by_cases hfirst : AllFit policy s.1 l
  · have h := ensured_of_allFit hl hfirst
    have hperm := newRelays_union h hl hm ht hunion
    have hlength := hperm.length_eq
    rw [List.length_append] at hlength
    rw [and_iff_right hfirst]
    constructor
    · intro hsecond
      refine ⟨fun r hr => ?_, fun hne => ?_⟩
      · rcases List.mem_append.mp (hperm.mem_iff.mp hr) with hr | hr
        · exact hfirst.admitted r hr
        · exact hsecond.admitted r hr
      · rw [hlength]
        by_cases hnone : newRelays (l.foldl (ensureGossipRelay policy) s).1 m = []
        · have hsome : newRelays s.1 l ≠ [] := by
            intro hnil
            rw [hnil, hnone, List.append_nil] at hperm
            exact hne hperm.eq_nil
          rw [hnone]
          exact hfirst.room hsome
        · obtain ⟨hopen, hfits⟩ := hsecond.room hnone
          exact ⟨h.shutdown.symm.trans hopen, (fits_ensured h _).mp hfits⟩
    · intro hall
      have hsub : ∀ r ∈ newRelays (l.foldl (ensureGossipRelay policy) s).1 m, r ∈ newRelays s.1 t :=
        fun r hr => hperm.mem_iff.mpr (List.mem_append_right _ hr)
      refine ⟨fun r hr => hall.admitted r (hsub r hr), fun hne => ?_⟩
      obtain ⟨r, hr⟩ := List.exists_mem_of_ne_nil _ hne
      obtain ⟨hopen, hfits⟩ := hall.room (List.ne_nil_of_mem (hsub r hr))
      rw [hlength] at hfits
      exact ⟨h.shutdown.trans hopen, (fits_ensured h _).mpr hfits⟩
  · refine iff_of_false (fun h => hfirst h.1) (fun hall => hfirst ?_)
    exact allFit_subset hall hl (fun r hr => (hunion r).mpr (Or.inl hr))

end Ensured

/-! ## The routes of the wraps -/

section Routed

variable (urls : UrlCrate) {D : Type}

/-- The DM relays of all of the readers. -/
def dmRelaysOf (gossip : Inner D) (readers : List PublicKey) : HashSet RelayUrl :=
  readers.foldl (gossip.extend (Gossip.dmRelays urls)) ∅

/-- The readers have DM relays each, and the pool holds them all or can take in the ones it does not hold. -/
structure Deliverable (client : Client D) (gossip : Inner D) (readers : List PublicKey) : Prop where
  listed : ∀ k ∈ readers, ∃ r, r ∈ gossip.dmRelays urls k
  fit : AllFit client.admitPolicy client.pool (dmRelaysOf urls gossip readers).toList

variable {urls} {client : Client D} {gossip : Inner D} {wrap : Event} {w : Event → World} {recipient : Recipient}
  {readers : List PublicKey} {r : RelayUrl} {k : PublicKey}

/-- The message relays of the readers are those of each. -/
theorem mem_dmRelaysOf : r ∈ dmRelaysOf urls gossip readers ↔ ∃ k ∈ readers, r ∈ gossip.dmRelays urls k := by
  unfold dmRelaysOf
  rw [Inner.mem_foldl_extend]
  exact or_iff_right ExtTreeSet.not_mem_empty

theorem nodup_dmRelaysOf : (dmRelaysOf urls gossip readers).toList.Nodup :=
  (HashSet.perm_iter _ (fun _ => 0)).nodup_iff.mp (HashSet.nodup_iter _ _)

theorem publicKeys_recipientTag (key : PublicKey) (relayHint : Option RelayUrl) :
    (⟨[recipientTag key relayHint]⟩ : Tags).publicKeys = [key] := by
  have hletter : TagKind.fromWire (String.singleton 'p') = .singleLetter (.lowercase .P) := by decide
  have hkind : (recipientTag key relayHint).kind = .singleLetter (.lowercase .P) := by
    cases relayHint <;> exact hletter
  have hcontent : (recipientTag key relayHint).content = some key.toHex := by
    cases relayHint <;> rfl
  unfold Tags.publicKeys Tags.findLetter
  simp [hkind, hcontent, PublicKey.parse_toHex, Except.toOption]

/-- A wrap is routed to the DM relays of its reader. -/
theorem breakDownEvent_addressed (h : Addressed recipient wrap) :
    gossip.breakDownEvent urls wrap = if (dmRelaysOf urls gossip [recipient.publicKey]).isEmpty then .orphan true
      else .relays (dmRelaysOf urls gossip [recipient.publicKey]) := by
  have hrelays : (keySet wrap.tags.publicKeys).toList.foldl (gossip.extend (Gossip.dmRelays urls)) ∅ =
      dmRelaysOf urls gossip [recipient.publicKey] := by
    refine ExtTreeSet.ext_mem (fun r => ?_)
    rw [mem_dmRelaysOf, Inner.mem_foldl_extend, h.tags, publicKeys_recipientTag]
    simp only [ExtTreeSet.mem_toList, mem_keySet, ExtTreeSet.not_mem_empty, false_or]
    rfl
  unfold Inner.breakDownEvent
  rw [if_pos h.kind]
  simp only [hrelays]

theorem exists_mem_of_isEmpty {relays : HashSet RelayUrl} (h : relays.isEmpty = false) : ∃ r, r ∈ relays := by
  by_contra hnone
  have hempty := ExtTreeSet.isEmpty_iff.mpr (ExtTreeSet.eq_empty_iff_forall_not_mem.mpr (not_exists.mp hnone))
  rw [h] at hempty
  cases hempty

/-- A reader can be reached when the cache has a message relay of theirs. -/
theorem isEmpty_dmRelaysOf : (dmRelaysOf urls gossip [k]).isEmpty = false ↔ ∃ r, r ∈ gossip.dmRelays urls k := by
  have hmem : ∀ r, r ∈ dmRelaysOf urls gossip [k] ↔ r ∈ gossip.dmRelays urls k := by
    intro r
    rw [mem_dmRelaysOf]
    simp
  constructor
  · intro h
    obtain ⟨r, hr⟩ := exists_mem_of_isEmpty h
    exact ⟨r, (hmem r).mp hr⟩
  · rintro ⟨r, hr⟩
    refine Bool.eq_false_iff.mpr (fun hempty => ?_)
    rw [← hmem, ExtTreeSet.isEmpty_iff.mp hempty] at hr
    exact ExtTreeSet.not_mem_empty hr

/-- The pool after the relays of a reader were asked for. -/
def poolAfter (urls : UrlCrate) (w : World) (client : Client D) (gossip : Inner D) (reader : PublicKey) : RelayPool :=
  (ensureGossipRelays client.admitPolicy client.pool (HashSet.iter (dmRelaysOf urls gossip [reader]) w.ensured)).1

/-- **One wrap**: it goes out exactly when its reader is deliverable, and then the relays of its reader are there. Two
    cases, as the reader has a relay to write to or none; in the first the send succeeds if all of them end up in the
    pool. -/
theorem sendWrap_addressed (hgossip : client.gossip = some gossip) (h : Addressed recipient wrap) :
    ((sendWrap urls w none client wrap).result.isOk = true ↔
      Deliverable urls client gossip [recipient.publicKey]) ∧
    (Deliverable urls client gossip [recipient.publicKey] →
      (sendWrap urls w none client wrap).state =
        { client with pool := poolAfter urls (w wrap) client gossip recipient.publicKey }) := by
  have hperm := HashSet.perm_iter (dmRelaysOf urls gossip [recipient.publicKey]) (w wrap).ensured
  have hnd := HashSet.nodup_iter (dmRelaysOf urls gossip [recipient.publicKey]) (w wrap).ensured
  have hroute : gossip.breakDownEvent urls wrap =
      if (dmRelaysOf urls gossip [recipient.publicKey]).isEmpty then .orphan true
      else .relays (dmRelaysOf urls gossip [recipient.publicKey]) := breakDownEvent_addressed h
  have hsend : client.sendEvent urls (w wrap) wrap = client.gossipSendEvent urls (w wrap) gossip wrap := by
    rw [Client.sendEvent, hgossip]
  unfold sendWrap
  rw [hsend]
  show ((client.gossipSendEvent urls (w wrap) gossip wrap).result.isOk = true ↔ _) ∧
    (_ → { client with pool := (client.gossipSendEvent urls (w wrap) gossip wrap).pool } = _)
  cases hempty : (dmRelaysOf urls gossip [recipient.publicKey]).isEmpty with
  | true =>
      have hno : ¬ Deliverable urls client gossip [recipient.publicKey] := by
        intro hdeliverable
        have hlisted := hdeliverable.listed _ List.mem_cons_self
        rw [← isEmpty_dmRelaysOf, hempty] at hlisted
        cases hlisted
      rw [hempty] at hroute
      rw [Client.gossipSendEvent_orphan hroute]
      exact ⟨iff_of_false nofun hno, fun hdeliverable => absurd hdeliverable hno⟩
  | false =>
      rw [hempty] at hroute
      rw [Client.gossipSendEvent_relays hroute, isOk_lift_iff]
      have hall := ensure_all_iff client.admitPolicy hnd (client.pool, [])
      simp only [HashSet.mem_iter] at hall
      constructor
      · constructor
        · intro hheld
          refine ⟨fun k hk => ?_, (hall.mp hheld.2).perm hperm⟩
          rw [List.mem_singleton.mp hk]
          exact isEmpty_dmRelaysOf.mp hempty
        · intro hdeliverable
          exact ⟨hempty, hall.mpr (hdeliverable.fit.perm hperm.symm)⟩
      · intro _
        rw [pool_lift]
        rfl

/-- The readers one after the other. -/
theorem deliverable_cons_iff (w : World) :
    Deliverable urls client gossip (k :: readers) ↔ Deliverable urls client gossip [k] ∧
      Deliverable urls { client with pool := poolAfter urls w client gossip k } gossip readers := by
  have hperm := HashSet.perm_iter (dmRelaysOf urls gossip [k]) w.ensured
  have hnd := HashSet.nodup_iter (dmRelaysOf urls gossip [k]) w.ensured
  have hunion : ∀ r, r ∈ (dmRelaysOf urls gossip (k :: readers)).toList ↔
      r ∈ HashSet.iter (dmRelaysOf urls gossip [k]) w.ensured ∨ r ∈ (dmRelaysOf urls gossip readers).toList := by
    intro r
    rw [HashSet.mem_iter, ExtTreeSet.mem_toList, ExtTreeSet.mem_toList, mem_dmRelaysOf, mem_dmRelaysOf,
      mem_dmRelaysOf]
    simp
  have hfit : AllFit client.admitPolicy client.pool (HashSet.iter (dmRelaysOf urls gossip [k]) w.ensured) ∧
      AllFit client.admitPolicy (poolAfter urls w client gossip k) (dmRelaysOf urls gossip readers).toList ↔
        AllFit client.admitPolicy client.pool (dmRelaysOf urls gossip (k :: readers)).toList :=
    allFit_union_iff hnd nodup_dmRelaysOf nodup_dmRelaysOf hunion (client.pool, [])
  constructor
  · intro h
    obtain ⟨hfirst, hrest⟩ := hfit.mpr h.fit
    refine ⟨⟨fun k' hk' => ?_, hfirst.perm hperm⟩, fun k' hk' => h.listed k' (List.mem_cons_of_mem k hk'), hrest⟩
    rw [List.mem_singleton.mp hk']
    exact h.listed k List.mem_cons_self
  · rintro ⟨hfirst, hrest⟩
    refine ⟨fun k' hk' => ?_, hfit.mp ⟨hfirst.fit.perm hperm.symm, hrest.fit⟩⟩
    rcases List.mem_cons.mp hk' with rfl | hk'
    · exact hfirst.listed k' List.mem_cons_self
    · exact hrest.listed k' hk'

/-- **All wraps go out exactly when all readers are deliverable.** -/
theorem succeeds_iff (hgossip : client.gossip = some gossip) {recipients : List Recipient} {wraps : List Event}
    (h : List.Forall₂ Addressed recipients wraps) :
    Batch.Succeeds (sendWrap urls w none) client wraps ↔
      Deliverable urls client gossip (recipients.map Recipient.publicKey) := by
  induction h generalizing client with
  | nil =>
      refine iff_of_true trivial ⟨fun k hk => absurd hk List.not_mem_nil, ?_⟩
      exact ⟨fun r hr => absurd hr List.not_mem_nil, fun h => absurd rfl h⟩
  | @cons recipient wrap rest wraps haddressed _ ih =>
      have hok : (sendWrap urls w none client wrap).result.isOk = true ↔
          Deliverable urls client gossip [recipient.publicKey] := (sendWrap_addressed hgossip haddressed).1
      have hstate : Deliverable urls client gossip [recipient.publicKey] →
          (sendWrap urls w none client wrap).state =
            { client with pool := poolAfter urls (w wrap) client gossip recipient.publicKey } :=
        (sendWrap_addressed hgossip haddressed).2
      rw [Batch.Succeeds, hok, List.map_cons]
      refine Iff.trans (and_congr_right (fun hfirst => ?_)) (deliverable_cons_iff (w wrap)).symm
      rw [hstate hfirst]
      exact ih hgossip

end Routed

/-! ## Private messages -/

/-- Whom a message is wrapped for: its sender first. -/
def PrivateMsg.readers (msg : PrivateMsg) : List PublicKey :=
  msg.senderKeys.publicKey :: msg.recipients.map Recipient.publicKey

/-- A call that fails before it sends has sent nothing. -/
theorem wellSent_of_error {msg : PrivateMsg} {pool : RelayPool} {e : PrivateMsgError} :
    WellSent msg ⟨pool, [], .error e⟩ := ⟨fun _ _ => rfl, nofun⟩

/-- **When a private message is well sent**: once the relays of the sender can be had, those of all readers can. To
    given relays it always is.

    The wraps are sent one after the other, and the first failure ends the sending; so it is well sent exactly if,
    once the first wrap went out, all do (`wellSent_sendWraps_iff`), which is a matter of room and of known relays
    (`succeeds_iff`). -/
theorem wellSent_iff {D : Type} (crypto : Curve) (json : JsonCodec) (urls : UrlCrate) (draws : Nat → Draws)
    (timestamps : Except Nip59Error Timestamps) (w : Event → World) (client : Client D) (msg : PrivateMsg) :
    (WellSent msg (sendPrivateMsg crypto json urls draws timestamps w client msg) ↔
      ∀ gossip, client.gossip = some gossip → (∃ wraps, buildWraps crypto json draws timestamps msg = .ok wraps) →
        Deliverable urls client gossip [msg.senderKeys.publicKey] → Deliverable urls client gossip msg.readers) ∧
    ∀ targets, WellSent msg (sendPrivateMsgTo crypto json urls draws timestamps w client targets msg) := by
  unfold sendPrivateMsg sendPrivateMsgTo
  cases hwraps : buildWraps crypto json draws timestamps msg with
  | error e =>
      refine ⟨iff_of_true wellSent_of_error (fun _ _ hbuilt => ?_), fun targets => ?_⟩
      · obtain ⟨wraps, hwraps⟩ := hbuilt
        cases hwraps
      · cases targets with
        | error text => exact wellSent_of_error
        | ok targets => exact wellSent_of_error
  | ok wraps =>
      have haddressed := addressed_buildWraps hwraps
      obtain ⟨own, rest, hown, _, rfl⟩ := List.forall₂_cons_left_iff.mp haddressed
      constructor
      · show WellSent msg (sendWraps urls w none client (own :: rest)) ↔ _
        rw [wellSent_sendWraps_iff haddressed]
        cases hgossip : client.gossip with
        | none => exact iff_of_true (succeeds_of_no_gossip hgossip) nofun
        | some gossip =>
            rw [succeeds_iff hgossip (.cons hown .nil), succeeds_iff hgossip haddressed]
            constructor
            · intro h _ hsome _
              cases hsome
              exact h
            · intro h
              exact h gossip rfl ⟨_, rfl⟩
      · intro targets
        cases targets with
        | error text => exact wellSent_of_error
        | ok targets => exact (wellSent_sendWraps_iff haddressed).mpr succeeds_of_targets

namespace Sample

open Nula.Sample Nip59.Sample

/-- Carol has a DM relay, of dave none is known. -/
def router : Inner Unit where
  options := .default
  db := ()
  routes := (∅ : HashMap PublicKey UserRoutes).insert carol { UserRoutes.default with nip17 := [Gossip.Sample.one] }

/-- The pool holds carol's relay. -/
def sender : Client Unit := ⟨Gossip.Sample.holding ⟨2, Nat.two_pos⟩, none, some router⟩

/-- Carol writes to dave. -/
def toDave : PrivateMsg := ⟨keys, [⟨dave, none⟩], "note", none⟩

/-- The message as it is wrapped. -/
def rumor : UnsignedEvent :=
  buildChatMessageRumor Nip59.Sample.curve toDave.senderKeys toDave.recipients toDave.message timestamps.rumor none none

theorem size_rumor : Nip44.minPlaintextBytes ≤ (strBytes (rumor.asJson Json.codec)).length ∧
    (strBytes (rumor.asJson Json.codec)).length ≤ 2400 := by
  have hbytes : strBytes (rumor.asJson Json.codec) = (Json.writeValue rumor.toJson).flatMap String.utf8EncodeChar :=
    strBytes_ofList _
  obtain ⟨hpos, hle⟩ := rumor.length_writeValue_le
  have htags : (Json.writeValue (.array (rumor.tags.items.map Json.tagValue))).length ≤ 200 := by decide +kernel
  have hcontent : rumor.content.toList.length ≤ 10 := by decide
  rw [hbytes]
  exact ⟨hpos.trans_le (length_le_utf8 _), (length_utf8_le _).trans (by omega)⟩

theorem buildWraps_toDave : ∃ wraps, buildWraps Nip59.Sample.curve Json.codec (fun _ => draws) (.ok timestamps) toDave =
    .ok wraps := by
  have hbuild : buildWraps Nip59.Sample.curve Json.codec (fun _ => draws) (.ok timestamps) toDave =
      wrapForMany Nip59.Sample.curve Json.codec (fun _ => draws) keys [⟨dave, none⟩] rumor timestamps := by
    rw [buildWraps, if_neg (show toDave.recipients ≠ [] from List.cons_ne_nil _ _)]
    rfl
  rw [hbuild]
  refine wrapForMany_ok Json.codec (List.cons_ne_nil _ _) (fun _ => ⟨⟨_, rfl⟩, ⟨secret 5, rfl⟩, ⟨_, rfl⟩⟩)
    ⟨size_rumor.1, size_rumor.2.trans (by decide)⟩ ?_
  intro _ recipient _ sealed hsealed
  obtain ⟨htags, hcontent⟩ := contents_createSeal Json.codec hsealed
  refine fits_seal htags ?_
  rw [hcontent (List.replicate 32 1) rfl]
  show (strBytes (Nip59.Sample.curve.nip44Seal (secret 3) recipient.publicKey (List.replicate 32 1)
    (rumor.asJson Json.codec))).length ≤ 2500
  -- the primitives know the note carol wraps for herself, and mark every other text
  simp only [Nip59.Sample.curve, publicKeyOf_carol, encrypted_carol]
  split
  · exact length_noteCiphertext
  · rw [strBytes_append, List.length_append]
    have hmark : (strBytes "#").length = 1 := by decide
    have hsize := size_rumor.2
    omega

end Sample

/-- Carol's own copy is out when the wrap for dave finds no relay, and the call fails. -/
theorem sent_to_self_only :
    (∃ e, (sendPrivateMsg Nip59.Sample.curve Json.codec Gossip.Sample.urlCrate (fun _ => Nip59.Sample.draws)
      (.ok Nip59.Sample.timestamps) (fun _ => Gossip.Sample.world) Sample.sender Sample.toDave).result = .error e) ∧
    (sendPrivateMsg Nip59.Sample.curve Json.codec Gossip.Sample.urlCrate (fun _ => Nip59.Sample.draws)
      (.ok Nip59.Sample.timestamps) (fun _ => Gossip.Sample.world) Sample.sender Sample.toDave).published ≠ [] := by
  obtain ⟨wraps, hwraps⟩ := Sample.buildWraps_toDave
  have haddressed := addressed_buildWraps hwraps
  obtain ⟨own, rest, hown, _, rfl⟩ := List.forall₂_cons_left_iff.mp haddressed
  have hsent : sendPrivateMsg Nip59.Sample.curve Json.codec Gossip.Sample.urlCrate (fun _ => Nip59.Sample.draws)
      (.ok Nip59.Sample.timestamps) (fun _ => Gossip.Sample.world) Sample.sender Sample.toDave =
      sendWraps Gossip.Sample.urlCrate (fun _ => Gossip.Sample.world) none Sample.sender (own :: rest) := by
    rw [sendPrivateMsg, hwraps]
  have hfirst : Deliverable Gossip.Sample.urlCrate Sample.sender Sample.router
      [Sample.toDave.senderKeys.publicKey] := by
    rw [show Sample.toDave.senderKeys.publicKey = Nula.Sample.carol from Nip59.Sample.publicKeyOf_carol]
    have hnew : newRelays Sample.sender.pool
        (dmRelaysOf Gossip.Sample.urlCrate Sample.router [Nula.Sample.carol]).toList = [] := by decide +kernel
    refine ⟨fun k hk => ?_, ?_, fun h => absurd hnew h⟩
    · rw [List.mem_singleton.mp hk]
      exact ⟨Gossip.Sample.one, by decide +kernel⟩
    · rw [hnew]
      exact fun r hr => absurd hr List.not_mem_nil
  have hnot : ¬ Deliverable Gossip.Sample.urlCrate Sample.sender Sample.router Sample.toDave.readers := by
    intro h
    obtain ⟨r, hr⟩ := h.listed Nip59.Sample.dave (List.mem_cons_of_mem _ List.mem_cons_self)
    have hnone : Sample.router.dmRelays Gossip.Sample.urlCrate Nip59.Sample.dave = ∅ := by
      decide +kernel
    rw [hnone] at hr
    exact ExtTreeSet.not_mem_empty hr
  have hown := (succeeds_iff (w := fun _ => Gossip.Sample.world) rfl (.cons hown .nil)).mpr hfirst
  have hfailed := mt (succeeds_iff (w := fun _ => Gossip.Sample.world) rfl haddressed).mp hnot
  have hresult : ∃ e, (sendWraps Gossip.Sample.urlCrate (fun _ => Gossip.Sample.world) none Sample.sender
      (own :: rest)).result = .error e := by
    rw [← Batch.isOk_run] at hfailed
    unfold sendWraps
    cases hran : (Batch.run (sendWrap Gossip.Sample.urlCrate (fun _ => Gossip.Sample.world) none) Sample.sender
        (own :: rest)).result with
    | error e => exact ⟨.client e, by simp only [hran]⟩
    | ok outputs => exact absurd (by rw [hran]; rfl) hfailed
  rw [hsent]
  refine ⟨hresult, fun hnone => hfailed ((wellSent_sendWraps_iff haddressed).mp ⟨fun _ _ => hnone, ?_⟩ hown)⟩
  intro o ho
  obtain ⟨e, he⟩ := hresult
  cases he.symm.trans ho

end Nula.Sdk
