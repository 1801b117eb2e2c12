import Nula.Relay.Wire

/-!
# `Relay.Tracked` — what is open on the wire is in the map

`openReq` reads off the log which subscriptions the relay has open on a socket. `Tracked`: on the live socket
these are all in the map, so that the client can still close them. It fails when a subscription leaves the map
without a `CLOSE` of either side, and only then: `open_tracked_iff`.
-/

namespace Nula.Relay

open Std

/-- One frame's effect on whether subscription `id` is open on `socket`. -/
def track (socket : Nat) (id : SubscriptionId) (isOpen : Bool) : Obs → Bool
  | .sent s (.req i _) => if s = socket ∧ i = id then true else isOpen
  | .sent s (.close i) => if s = socket ∧ i = id then false else isOpen
  | .received s (.closed i _) => if s = socket ∧ i = id then false else isOpen
  | _ => isOpen

/-- A `REQ` for `id` was written on `socket`, and neither a `CLOSE` written nor a `CLOSED` read since. -/
def openReq (socket : Nat) (id : SubscriptionId) (log : List (Nat × Obs)) : Bool :=
  log.foldl (fun isOpen x => track socket id isOpen x.2) false

theorem openReq_append (socket : Nat) (id : SubscriptionId) (log : List (Nat × Obs)) (x : Nat × Obs) :
    openReq socket id (log ++ [x]) = track socket id (openReq socket id log) x.2 := by
  rw [openReq, List.foldl_append]
  rfl

/-- Only frames count. -/
theorem openReq_filter (socket : Nat) (id : SubscriptionId) (log : List (Nat × Obs)) :
    openReq socket id (log.filter (fun x => x.2.isFrame)) = openReq socket id log := by
  induction log using List.reverseRecOn with
  | nil => rfl
  | append_singleton log x ih =>
      rw [List.filter_append, openReq_append]
      obtain ⟨t, o⟩ := x
      cases o with
      | sent s m => rw [← ih, ← openReq_append]; rfl
      | received s m => rw [← ih, ← openReq_append]; rfl
      | item s i => rw [← ih]; simp [Obs.isFrame, track]
      | reply s r => rw [← ih]; simp [Obs.isFrame, track]
      | notified n => rw [← ih]; simp [Obs.isFrame, track]

/-- What is open on a socket was written on it. By induction from the last frame; only frames on the socket itself
    change what is open on it. -/
theorem openReq_of_fresh {socket : Nat} {id : SubscriptionId} {frames : List (Nat × Obs)}
    (h : ∀ x ∈ frames, ¬ x.2.On socket) : openReq socket id frames = false := by
  induction frames using List.reverseRecOn with
  | nil => rfl
  | append_singleton frames x ih =>
      rw [openReq_append, ih (fun y hy => h y (List.mem_append_left _ hy))]
      have hx := h x (List.mem_append_right _ (List.mem_singleton.mpr rfl))
      obtain ⟨t, o⟩ := x
      cases o with
      | sent s m =>
          have hs : s ≠ socket := hx
          -- two kinds of frame count, and only on their own socket
          cases m with
          | req i filters => exact if_neg (fun hc => hs hc.1)
          | close i => exact if_neg (fun hc => hs hc.1)
          | event event => rfl
          | auth event => rfl
          | count i filter => rfl
          | negOpen i filter hex => rfl
          | negMsg i hex => rfl
          | negClose i => rfl
      | received s m =>
          have hs : s ≠ socket := hx
          cases m with
          | closed i why => exact if_neg (fun hc => hs hc.1)
          | event i event => rfl
          | endOfStoredEvents i => rfl
          | ok i accepted message => rfl
          | notice message => rfl
          | auth challenge => rfl
          | count i n => rfl
          | negMsg i message => rfl
          | negErr i message => rfl
      | item s i => rfl
      | reply s r => rfl
      | notified n => rfl

namespace Wire

/-- Every subscription open on the live socket is in the map. -/
def Tracked (w : Wire) : Prop := ∀ socket id, w.sink = some socket →
  openReq socket id w.frames = true → id ∈ w.subscriptions

variable {w : Wire} {env : Env} {turn : Nat}

namespace Tracked

/-- Without a subscription nothing is to be tracked. -/
theorem dropped (w : Wire) : w.dropped.Tracked := by
  intro socket id hsink
  cases hsink

/-- A subscription that is added is one more to track. -/
theorem insert {id : SubscriptionId} {entry : SubscriptionEntry} (h : w.Tracked) :
    (w.insert id entry).Tracked := by
  intro socket k hsink hopen
  show k ∈ w.subscriptions.insert id entry
  rw [ExtTreeMap.mem_insert]
  exact Or.inr (h socket k hsink hopen)

/-- A frame that opens nothing untracked. -/
theorem push {o : Obs} (h : w.Tracked)
    (ho : ∀ socket id filters, o = .sent socket (.req id filters) → id ∈ w.subscriptions) :
    (w.push turn o).Tracked := by
  intro socket id hsink hopen
  have hopen' : track socket id (openReq socket id w.frames) o = true := by
    rw [← openReq_append socket id w.frames (turn, o)]
    exact hopen
  show id ∈ w.subscriptions
  by_cases hbefore : openReq socket id w.frames = true
  · exact h socket id hsink hbefore
  · rw [Bool.not_eq_true] at hbefore
    rw [hbefore] at hopen'
    unfold track at hopen'
    split at hopen'
    · rename_i s i filters
      by_cases hi : s = socket ∧ i = id
      · exact hi.2 ▸ ho s i filters rfl
      · simp [hi] at hopen'
    · simp at hopen'
    · simp at hopen'
    · cases hopen'

/-- A frame keeps track, if it asks for nothing but what is in the map. -/
theorem sendIfLive {message : ClientMessage} (h : w.Tracked)
    (hm : ∀ id filters, message = .req id filters → id ∈ w.subscriptions) :
    (w.sendIfLive env turn message).Tracked := by
  rw [Wire.sendIfLive]
  cases w.sink with
  | none => exact h
  | some socket =>
      show (if env.refuses message = none then w.push turn (.sent socket message) else w).Tracked
      split
      · apply h.push
        intro s id filters ho
        cases ho
        exact hm id filters rfl
      · exact h

/-- A fresh socket has only the map's own subscriptions on it. By induction on the entries that are asked for again: a
    `REQ` on the new socket is for one of them. -/
theorem connected (h : Below turn w) : (w.connected env turn).Tracked := by
  suffices H : ∀ (entries : List (SubscriptionId × SubscriptionEntry)) id,
      openReq turn id (w.frames ++ entries.filterMap (reissued env turn turn)) = true →
      id ∈ entries.map Prod.fst by
    intro socket id hsink hopen
    cases hsink
    obtain ⟨⟨k, entry⟩, hmem, rfl⟩ := List.mem_map.mp (H _ id hopen)
    have := HashMap.mem_iter.mp hmem
    show k ∈ w.subscriptions
    grind
  intro entries id
  induction entries using List.reverseRecOn with
  | nil =>
      intro hopen
      rw [List.filterMap_nil, List.append_nil, openReq_of_fresh] at hopen
      · cases hopen
      · intro x hx hon
        exact absurd ((h.frame x hx).2 turn hon) (Nat.lt_irrefl _)
  | append_singleton entries entry ih =>
      intro hopen
      rw [List.map_append, List.mem_append]
      by_cases hid : entry.1 = id
      · exact Or.inr (List.mem_singleton.mpr hid.symm)
      · apply Or.inl
        apply ih
        rw [List.filterMap_append, ← List.append_assoc] at hopen
        cases hr : reissued env turn turn entry with
        | none => simpa [hr] using hopen
        | some x =>
            have hx : x = (turn, .sent turn (.req entry.1 entry.2.filters)) := by
              simp only [reissued] at hr
              split at hr
              · cases hr
              · split at hr
                · exact (Option.some.inj hr).symm
                · cases hr
            rw [List.filterMap_cons, hr, List.filterMap_nil, openReq_append, hx] at hopen
            simpa [track, hid] using hopen

/-- Taking an id out of the map is safe exactly when it is not open. -/
theorem erase_iff {id : SubscriptionId} (h : w.Tracked) : (w.erase id).Tracked ↔
    ∀ socket, w.sink = some socket → openReq socket id w.frames = false := by
  constructor
  · intro herase socket hsink
    by_contra hopen
    have hmem : id ∈ w.subscriptions.erase id :=
      herase socket id hsink (by rwa [Bool.not_eq_false] at hopen)
    simp at hmem
  · intro hclosed socket k hsink hopen
    have hne : k ≠ id := by
      rintro rfl
      have hopen' : openReq socket k w.frames = true := hopen
      rw [hclosed socket hsink] at hopen'
      cases hopen'
    have hk := h socket k hsink hopen
    show k ∈ w.subscriptions.erase id
    grind

/-- The `CLOSE` of a dropped handle is owed exactly when the id is open. Three cases: there is no socket, the `CLOSE`
    goes out, or it is refused, and then nothing may be open. -/
theorem close_iff {id : SubscriptionId} (h : w.Tracked) :
    ((w.erase id).sendIfLive env turn (.close id)).Tracked ↔
    ∀ socket, w.sink = some socket → openReq socket id w.frames = true →
      env.refuses (.close id) = none := by
  cases hsink : w.sink with
  | none =>
      -- no socket, nothing open
      rw [sendIfLive_none env turn (w := w.erase id) hsink]
      refine iff_of_true ?_ (by simp)
      show (w.erase id).Tracked
      rw [h.erase_iff]
      intro socket hs
      rw [hsink] at hs
      cases hs
  | some socket =>
      rw [sendIfLive_some env turn (w := w.erase id) hsink, send]
      split
      · -- the `CLOSE` is out, and the relay has forgotten the id too
        rename_i hok
        show ((w.push turn (.sent socket (.close id))).erase id).Tracked ↔ _
        have hpush : (w.push turn (.sent socket (.close id))).Tracked := h.push (by rintro _ _ _ ⟨⟩)
        refine iff_of_true (hpush.erase_iff.mpr ?_) (fun _ _ _ => hok)
        intro s hs
        have hs' : w.sink = some s := hs
        rw [hsink] at hs'
        cases hs'
        show openReq socket id (w.frames ++ [_]) = false
        rw [openReq_append]
        simp [track]
      · -- the `CLOSE` is lost: all is well only if the relay had nothing open
        rename_i hrefuse
        rw [h.erase_iff]
        constructor
        · intro hclosed s hs hopen
          cases hs
          rw [hclosed socket hsink] at hopen
          cases hopen
        · intro hc s hs
          rw [hsink] at hs
          cases hs
          by_contra hopen
          exact hrefuse (hc socket rfl (by rwa [Bool.not_eq_false] at hopen))

end Tracked

end Wire

namespace Actor

variable (ctx : StaticCtx) {env : Env} {a : Actor}

/-- In a state with a live socket, every subscription open on it is in the map. -/
def Tracked (a : Actor) : Prop := ∀ socket id, a.state.sink = some socket →
  openReq socket id a.log = true → id ∈ a.state.subscriptions

/-- A frame that takes a subscription out of the map while the relay still has it open: the `EOSE` of a
    `close_on_eose` subscription, or a `NEG-ERR`. -/
def forgets (a : Actor) : RelayMessage → Option SubscriptionId
  | .closed _ _ => none
  | message => a.ends message

/-- The wakeup neither forgets a subscription that is open on the wire nor opens an untracked one. -/
def KeepsTrack (a : Actor) (event : Wakeup × Env) : Prop :=
  match event.1 with
  | .inbound frame => ∀ socket message id, a.reads ctx (.inbound frame) = some (socket, message) →
      a.forgets message = some id → openReq socket id a.log = false
  | .closeSignal id => ∀ socket, a.state.sink = some socket → id ∈ a.state.subscriptions →
      openReq socket id a.log = true → event.2.refuses (.close id) = none
  | .command (.sendMsg (.req id filters)) => ∀ socket, a.state.sink = some socket →
      event.2.refuses (.req id filters) = none → id ∈ a.state.subscriptions
  | _ => True

theorem wire_tracked_iff (a : Actor) : a.wire.Tracked ↔ a.Tracked := by
  refine forall₃_congr (fun socket id _ => ?_)
  show openReq socket id (a.log.filter _) = true → _ ↔ _
  rw [openReq_filter]
  rfl

/-- A new connection keeps track: what is reissued on it is in the map. -/
theorem tracked_wireConnect (hb : Wire.Below a.turn a.wire) (h : a.wire.Tracked) :
    (a.wireConnect env).Tracked := by
  rw [wireConnect]
  cases env.handshake with
  | opened => exact Wire.Tracked.connected hb
  | failed text => exact h
  | timedOut => exact h

/-- A raw frame. Only a `REQ` that goes out opens an id, which must then be in the map. -/
theorem tracked_sendMsg_iff {message : ClientMessage} (h : a.wire.Tracked) :
    (a.wire.sendIfLive env a.turn message).Tracked ↔
      KeepsTrack ctx a (.command (.sendMsg message), env) := by
  cases message with
  | req id filters =>
      show _ ↔ ∀ socket, a.wire.sink = some socket → env.refuses (.req id filters) = none →
        id ∈ a.wire.subscriptions
      rw [Wire.sendIfLive]
      cases hsink : a.wire.sink with
      | none => exact iff_of_true h (by simp)
      | some socket =>
          show (if env.refuses (.req id filters) = none then
            a.wire.push a.turn (.sent socket (.req id filters)) else a.wire).Tracked ↔ _
          split
          · rename_i hok
            constructor
            · intro hafter s _ _
              apply hafter socket id hsink
              show openReq socket id (a.wire.frames ++ [_]) = true
              rw [openReq_append]
              simp [track]
            · intro hmem
              apply h.push
              intro s i fs ho
              cases ho
              exact hmem socket rfl hok
          · rename_i hrefuse
            exact iff_of_true h (fun s _ hok => absurd hok hrefuse)
  | event event => exact iff_of_true (h.sendIfLive (by rintro _ _ ⟨⟩)) trivial
  | close id => exact iff_of_true (h.sendIfLive (by rintro _ _ ⟨⟩)) trivial
  | auth event => exact iff_of_true (h.sendIfLive (by rintro _ _ ⟨⟩)) trivial
  | count id filter => exact iff_of_true (h.sendIfLive (by rintro _ _ ⟨⟩)) trivial
  | negOpen id filter hex => exact iff_of_true (h.sendIfLive (by rintro _ _ ⟨⟩)) trivial
  | negMsg id hex => exact iff_of_true (h.sendIfLive (by rintro _ _ ⟨⟩)) trivial
  | negClose id => exact iff_of_true (h.sendIfLive (by rintro _ _ ⟨⟩)) trivial

/-- A dropped handle. -/
theorem tracked_closeSignal_iff {id : SubscriptionId} (h : a.wire.Tracked) :
    (a.wireAfter ctx env (.closeSignal id)).Tracked ↔ KeepsTrack ctx a (.closeSignal id, env) := by
  show _ ↔ ∀ socket, a.state.sink = some socket → id ∈ a.state.subscriptions →
    openReq socket id a.log = true → env.refuses (.close id) = none
  simp only [wireAfter]
  by_cases hmem : id ∈ a.state.subscriptions
  · rw [if_pos (by simpa using hmem), h.close_iff]
    refine forall₂_congr (fun socket _ => ?_)
    rw [← openReq_filter socket id a.log]
    exact ⟨fun hc _ => hc, fun hc => hc hmem⟩
  · rw [if_neg (by simpa using hmem)]
    exact iff_of_true h (fun _ _ hc => absurd hc hmem)

/-- A frame read. A `CLOSED` is never owed anything. A frame that ends nothing opens nothing; one that ends an id
    takes its entry, so the relay must not have it open. -/
theorem tracked_reads_iff {socket : Nat} {message : RelayMessage} (h : a.wire.Tracked)
    (hsink : a.state.sink = some socket) :
    (match a.ends message with
      | some id => (a.wire.push a.turn (.received socket message)).erase id
      | none => a.wire.push a.turn (.received socket message)).Tracked ↔
    ∀ id, a.forgets message = some id → openReq socket id a.log = false := by
  have hpush : (a.wire.push a.turn (.received socket message)).Tracked := h.push (by rintro _ _ _ ⟨⟩)
  cases hends : a.ends message with
  | none =>
      refine iff_of_true hpush (fun id hforget => ?_)
      cases message <;> simp_all [forgets]
  | some id =>
      -- the entry goes, so after this frame the relay must not have the id open
      rw [hpush.erase_iff]
      have hframes : openReq socket id (a.wire.frames ++ [(a.turn, .received socket message)]) =
          track socket id (openReq socket id a.log) (.received socket message) := by
        rw [openReq_append, ← openReq_filter socket id a.log]
        rfl
      have hcongr : (∀ s, (a.wire.push a.turn (.received socket message)).sink = some s →
          openReq s id (a.wire.push a.turn (.received socket message)).frames = false) ↔
          track socket id (openReq socket id a.log) (.received socket message) = false := by
        rw [← hframes]
        constructor
        · exact fun hc => hc socket hsink
        · intro hc s hs
          have hs' : a.state.sink = some s := hs
          rw [hsink] at hs'
          cases hs'
          exact hc
      rw [hcongr]
      cases message with
      | closed i text =>
          have hi : i = id := Option.some.inj hends
          subst hi
          exact iff_of_true (by simp [track]) (by simp [forgets])
      | endOfStoredEvents i => simp [forgets, hends, track]
      | negErr i text => simp [forgets, hends, track]
      | event i event => cases hends
      | ok i accepted text => cases hends
      | notice text => cases hends
      | auth challenge => cases hends
      | count i n => cases hends
      | negMsg i text => cases hends

/-- What one wakeup makes of the tracking. One case for each wakeup. -/
theorem tracked_wireAfter_iff (hb : Wire.Below a.turn a.wire) (h : a.wire.Tracked) (w : Wakeup) :
    (a.wireAfter ctx env w).Tracked ↔ KeepsTrack ctx a (w, env) := by
  -- a frame read, a dropped handle and a raw frame can lose track of a subscription; nothing else can
  cases w with
  | commandsClosed => exact iff_of_true (Wire.Tracked.dropped _) trivial
  | publishTimer => exact iff_of_true h trivial
  | reconnectTimer => exact iff_of_true (tracked_wireConnect hb h) trivial
  | closeSignal id => exact tracked_closeSignal_iff ctx h
  | inbound frame =>
      show _ ↔ ∀ socket message id, a.reads ctx (.inbound frame) = some (socket, message) →
        a.forgets message = some id → openReq socket id a.log = false
      simp only [wireAfter]
      cases hread : a.reads ctx (.inbound frame) with
      | none =>
          refine iff_of_true ?_ (by simp)
          show (if hangsUp (.inbound frame) then a.wire.dropped else a.wire).Tracked
          split
          · exact Wire.Tracked.dropped _
          · exact h
      | some read =>
          obtain ⟨socket, message⟩ := read
          -- what is read comes from the socket that is written to
          have hsink : a.state.sink = some socket := by
            rw [← stream_of_reads hread]
            exact hb.paired.symm
          refine (tracked_reads_iff h hsink).trans ?_
          constructor
          · rintro hc s m id hsm
            cases hsm
            exact hc id
          · intro hc id
            exact hc socket message id rfl
  | command cmd =>
      cases cmd with
      | shutdown => exact iff_of_true (Wire.Tracked.dropped _) trivial
      | disconnect => exact iff_of_true (Wire.Tracked.dropped _) trivial
      | sendMsg message => exact tracked_sendMsg_iff ctx h
      | connect =>
          refine iff_of_true ?_ trivial
          simp only [wireAfter]
          split
          · exact h
          · exact tracked_wireConnect hb h
      | subscribe id filters options =>
          refine iff_of_true ?_ trivial
          simp only [wireAfter]
          split
          · exact h
          · apply h.insert.sendIfLive
            intro i fs hm
            cases hm
            exact ExtTreeMap.mem_insert_self
      | subscribeNeg id filter hex =>
          refine iff_of_true ?_ trivial
          simp only [wireAfter]
          split
          · exact h
          · split
            · exact h
            · split
              · exact h.insert.push (by rintro _ _ _ ⟨⟩)
              · exact h
      | publish event options =>
          refine iff_of_true ?_ trivial
          simp only [wireAfter]
          split
          · exact h
          · exact h.sendIfLive (by rintro _ _ ⟨⟩)
      | authenticate event => exact iff_of_true (h.sendIfLive (by rintro _ _ ⟨⟩)) trivial

/-- **One step** keeps track exactly if the arm that is served neither forgets a subscription that is open nor opens
    one that is not in the map. -/
theorem tracked_step_iff (hb : Wire.Below a.turn a.wire) (h : a.Tracked) (event : Wakeup × Env) :
    (a.step ctx event).Tracked ↔ (a.serves ctx event → KeepsTrack ctx a event) := by
  by_cases hs : a.serves ctx event
  · rw [← wire_tracked_iff, wire_step ctx a event hs,
      tracked_wireAfter_iff ctx hb ((wire_tracked_iff a).mpr h)]
    exact ⟨fun hc _ => hc, fun hc => hc hs⟩
  · refine iff_of_true ?_ (fun hc => absurd hc hs)
    rcases step_of_not_serves ctx hs with ⟨hattends, hover, _⟩ | ⟨_, hidle⟩
    · intro socket id hsink
      rw [sink_step_of_overflows ctx hattends hover] at hsink
      cases hsink
    · rw [hidle]
      exact h

end Actor

/-- **Open on the wire, tracked in the map.** In every state of a run the subscriptions open on the live socket
    are in the map, exactly when no wakeup of the run forgets one that is open.

    Every step keeps all sockets of the log below the turn (`below_run`), so that a socket that is opened is a new
    one. Given that, one step keeps track exactly if the wakeup does (`tracked_step_iff`). -/
theorem open_tracked_iff (ctx : StaticCtx) (schedule : List (Wakeup × Env)) :
    Always (fun past => (Actor.run ctx past).Tracked) schedule ↔
    EachStep (fun past event => (Actor.run ctx past).serves ctx event →
      Actor.KeepsTrack ctx (Actor.run ctx past) event) schedule := by
  apply always_iff_eachStep (I := fun past =>
    Wire.Below (Actor.run ctx past).turn (Actor.run ctx past).wire)
  · exact Actor.below_run
  · intro socket id hsink
    cases hsink
  · intro past event hb h
    rw [Actor.run_append]
    exact Actor.tracked_step_iff ctx hb h event

/-- A one-shot query, up to its `EOSE`. -/
def oneShot : List (Wakeup × Env) :=
  [(.command .connect, Sample.calm),
    (.command (.subscribe Sample.subscription [Sample.everything] ⟨true⟩), Sample.calm),
    (.inbound (some (.ok (.text "[\"EOSE\",\"a\"]"))), Sample.calm)]

/-- The relay keeps a one-shot query open after the client has forgotten it. -/
theorem oneShot_untracked :
    ¬ Always (fun past => (Actor.run Sample.actorCtx past).Tracked) oneShot := by
  intro h
  have hmem := h.last 0 Sample.subscription (by decide +kernel) (by decide +kernel)
  revert hmem
  decide +kernel

end Nula.Relay
