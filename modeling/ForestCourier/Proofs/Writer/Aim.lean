import Mathlib.Logic.Function.Iterate
import ForestCourier.Proofs.Retry.Round
import ForestCourier.Proofs.Writer.Ledger
import ForestCourier.Proofs.Writer.Slots

/-!
Where the requests of a slot go. Every slot has a list of failover targets that stays the same, and
goes round it one by one; its session, if it has one, leads where its route does.
-/

namespace ForestCourier.Writer

namespace Route

def known (port : UInt16) : Route → List Target
  | forest id host none => [⟨host, port, some id⟩]
  | forest _ _ (some cursor) => cursor.replicas.map fun r => ⟨r.host, port, some r.forest⟩
  | hosts rotation => rotation.hosts.map fun host => ⟨host, port, none⟩

def position : Route → Nat
  | forest _ _ none => 0
  | forest _ _ (some cursor) => cursor.position
  | hosts rotation => rotation.index

/-- A route that goes round its targets. -/
def Tidy : Route → Prop
  | forest _ _ _ => True
  | hosts rotation => rotation.Tidy

variable {port : UInt16} {route : Route}

theorem known_rotate (port : UInt16) (route : Route) : route.rotate.known port = route.known port := by
  rcases route with ⟨id, host, _ | cursor⟩ | rotation
  · rfl
  · rfl
  · rfl

theorem position_lt (port : UInt16) (route : Route) :
    route.position < (route.known port).length := by
  rcases route with ⟨id, host, _ | cursor⟩ | rotation
  · exact Nat.zero_lt_one
  · rw [known, List.length_map]
    exact cursor.position_lt
  · rw [known, List.length_map]
    exact rotation.index_lt

theorem getElem?_position (port : UInt16) (route : Route) :
    (route.known port)[route.position]? = some (route.target port) := by
  rcases route with ⟨id, host, _ | cursor⟩ | rotation
  · rfl
  · rw [known, position, List.getElem?_map, List.getElem?_eq_getElem cursor.position_lt]
    rfl
  · rw [known, position, List.getElem?_map, List.getElem?_eq_getElem rotation.index_lt]
    rfl

theorem Tidy.rotated (h : route.Tidy) (port : UInt16) :
    route.rotate.Tidy ∧
      route.rotate.position = (route.position + 1) % (route.known port).length := by
  rcases route with ⟨id, host, _ | cursor⟩ | rotation
  · exact ⟨trivial, (Nat.mod_one _).symm⟩
  · refine ⟨trivial, ?_⟩
    rw [known, List.length_map]
    rfl
  · rw [known, List.length_map]
    exact HostRotation.Tidy.fail h

/-- The first `n` targets from the current one on, each as often as its turn comes. -/
def round (port : UInt16) (n : Nat) (route : Route) : List Target :=
  (List.range n).map fun j => (rotate^[j] route).target port

theorem Tidy.iterate (h : route.Tidy) (port : UInt16) (n : Nat) :
    (rotate^[n] route).Tidy ∧ (rotate^[n] route).known port = route.known port ∧
      (rotate^[n] route).position = (route.position + n) % (route.known port).length := by
  induction n with
  | zero => exact ⟨h, rfl, (Nat.mod_eq_of_lt (position_lt port route)).symm⟩
  | succ n ih =>
    obtain ⟨htidy, hknown, hposition⟩ := ih
    obtain ⟨htidy', hposition'⟩ := htidy.rotated port
    rw [Function.iterate_succ_apply']
    refine ⟨htidy', (known_rotate port _).trans hknown, ?_⟩
    rw [hposition', hknown, hposition, Nat.mod_add_mod, Nat.add_assoc]

theorem Tidy.getElem?_iterate (h : route.Tidy) (port : UInt16) (j : Nat) :
    (route.known port)[(route.position + j) % (route.known port).length]? =
      some ((rotate^[j] route).target port) := by
  obtain ⟨-, hknown, hposition⟩ := h.iterate port j
  have htarget := getElem?_position port (rotate^[j] route)
  rwa [hknown, hposition] at htarget

theorem Tidy.getElem?_round (h : route.Tidy) {n j : Nat} (hj : j < n) :
    (route.round port n)[j]? =
      (route.known port)[(route.position + j) % (route.known port).length]? := by
  rw [h.getElem?_iterate, round, List.getElem?_map, List.getElem?_range hj]
  rfl

theorem Tidy.mem_round (h : route.Tidy) {n : Nat} (hn : (route.known port).length ≤ n)
    {target : Target} (htarget : target ∈ route.known port) : target ∈ route.round port n := by
  obtain ⟨q, hq, hget⟩ := List.mem_iff_getElem.mp htarget
  have hposition := position_lt port route
  obtain ⟨j, hj, hturn⟩ : ∃ j < (route.known port).length,
      (route.position + j) % (route.known port).length = q := by
    rcases Nat.lt_or_ge q route.position with hlt | hge
    · refine ⟨q + (route.known port).length - route.position, by omega, ?_⟩
      have hround : route.position + (q + (route.known port).length - route.position) =
          q + (route.known port).length := by omega
      rw [hround, Nat.add_mod_right, Nat.mod_eq_of_lt hq]
    · refine ⟨q - route.position, by omega, ?_⟩
      rw [Nat.add_sub_cancel' hge, Nat.mod_eq_of_lt hq]
  refine List.mem_of_getElem? (i := j) ?_
  rw [h.getElem?_round (by omega), hturn, List.getElem?_eq_getElem hq, hget]

end Route

/-- A slot that goes round the failover targets, with its session, if it has one, at the current one. -/
structure Slot.Aims (port : UInt16) (targets : List Target) (slot : Slot) : Prop where
  known : slot.route.known port = targets
  tidy : slot.route.Tidy
  session : ∀ session, slot.session = some session → session.target = slot.route.target port

variable {σ : Type} {srv : Server σ} {targets : List Target}

namespace Delivery

theorem aims_of_slot {port : UInt16} {d d' : Delivery σ} (hroute : d'.slot.route = d.slot.route)
    (hsession : d'.slot.session = d.slot.session) (h : d.slot.Aims port targets) :
    d'.slot.Aims port targets :=
  ⟨hroute ▸ h.known, hroute ▸ h.tidy, hroute ▸ hsession ▸ h.session⟩

theorem aims_discardSession {port : UInt16} {d : Delivery σ} (h : d.slot.Aims port targets)
    (srv : Server σ) (terms : Terms) :
    (d.discardSession srv terms).slot.Aims port targets := by
  rw [slot_discardSession]
  exact ⟨h.known, h.tidy, nofun⟩

theorem steps_aims (srv : Server σ) (terms : Terms) (targets : List Target) :
    Steps srv terms fun d d' => d.slot.Aims terms.port targets → d'.slot.Aims terms.port targets where
  refl _ h := h
  trans h h' haims := h' (h haims)
  ensureSession d h := by
    unfold Delivery.ensureSession
    split
    · exact h
    · split
      · next session w hopen =>
        refine ⟨h.known, h.tidy, fun s hs => ?_⟩
        cases hs
        rw [(Wire.openSession_ok hopen).1]
      · exact h
  replayQueue session d h := by
    unfold Delivery.replayQueue
    split
    · next hinsert => exact aims_of_slot (by rw [(insert_error hinsert).1]) (by rw [(insert_error hinsert).1]) h
    · next hinsert => exact aims_of_slot (by rw [(insert_ok hinsert).1]) (by rw [(insert_ok hinsert).1]) h
  insertBatch session d h := by
    unfold Delivery.insertBatch
    split
    · next hinsert => exact aims_of_slot (by rw [(insert_error hinsert).1]) (by rw [(insert_error hinsert).1]) h
    · next hinsert => exact aims_of_slot (by rw [(insert_ok hinsert).1]) (by rw [(insert_ok hinsert).1]) h
  settleAuto _ d h := ⟨h.known, h.tidy, h.session⟩
  enqueue _ d h := ⟨h.known, h.tidy, h.session⟩
  commit _ session d h := by
    unfold Delivery.commit
    split
    · exact h
    · exact ⟨h.known, h.tidy, h.session⟩
  failOver e n d h := by
    have hdiscarded := session_discardSession srv terms d
    refine ⟨?_, ?_, fun s hs => ?_⟩
    · exact (Route.known_rotate terms.port d.slot.route).trans h.known
    · exact (h.tidy.rotated terms.port).1
    · simp only [Delivery.failOver, hdiscarded] at hs
      cases hs
  stage _ d h := ⟨h.known, h.tidy, h.session⟩

end Delivery

def settled (srv : Server σ) (closing : Bool) (slot : Slot) (w : Writer) (site : Site σ) : Delivery σ :=
  match w.delivery srv closing slot site with
  | (.ok (), d) => d
  | (.error _, d) => d.discardSession srv w.terms

/-- A flush leaves the route and the session of its slot, and the requests, as its delivery does. -/
theorem flush_settled (srv : Server σ) {i : Nat} (closing : Bool) {w : Writer} {slot : Slot}
    (site : Site σ) (hi : w.slots[i]? = some slot) :
    ∃ slot', (w.flush srv i closing site).2.1.slots[i]? = some slot' ∧
      slot'.route = (w.settled srv closing slot site).slot.route ∧
      slot'.session = (w.settled srv closing slot site).slot.session ∧
      (w.flush srv i closing site).2.2.wire.trace = (w.settled srv closing slot site).wire.trace ∧
      (w.flush srv i closing site).2.2.wire.opened = (w.settled srv closing slot site).wire.opened := by
  obtain ⟨hlt, -⟩ := List.getElem?_eq_some_iff.mp hi
  unfold settled
  obtain ⟨d, hd, hf⟩ | ⟨e, n, d, count, hd, hf⟩ | ⟨e, n, d, kind, hd, hf⟩ :=
    flush_cases srv closing site hi
  · rw [hd, hf]
    exact ⟨d.slot, getElem?_put hlt d site, rfl, rfl, rfl, rfl⟩
  · rw [hd, hf]
    exact ⟨_, getElem?_put hlt _ _, rfl, rfl, rfl, rfl⟩
  · rw [hd, hf]
    exact ⟨_, getElem?_put hlt _ _, rfl, rfl, rfl, rfl⟩

/-- A writer on its terms, whose slots go round the failover targets of their own. -/
structure Aimed (terms : Terms) (targets : Nat → List Target) (w : Writer) : Prop where
  kept : w.terms = terms
  slots : ∀ (i : Nat) (slot : Slot), w.slots[i]? = some slot → slot.Aims terms.port (targets i)

namespace Aimed

variable {terms : Terms} {targets : Nat → List Target} {w w' : Writer} {site : Site σ}

theorem beside {i : Nat} (h : w.Aimed terms targets) (hw : Beside i w w')
    (hi : ∀ slot : Slot, w'.slots[i]? = some slot → slot.Aims terms.port (targets i)) :
    w'.Aimed terms targets := by
  refine ⟨hw.terms.trans h.kept, fun j slot hj => ?_⟩
  by_cases hji : j = i
  · subst hji
    exact hi slot hj
  · rw [hw.others j hji] at hj
    exact h.slots j slot hj

theorem flush (h : w.Aimed terms targets) (srv : Server σ) (i : Nat) (closing : Bool)
    (site : Site σ) :
    (w.flush srv i closing site).2.1.Aimed terms targets := by
  refine h.beside (beside_flush srv i closing w site) fun slot' hslot' => ?_
  cases hi : w.slots[i]? with
  | none =>
    rw [Writer.flush, hi] at hslot'
    exact h.slots i slot' hslot'
  | some slot =>
    have haims := h.slots i slot hi
    rw [← h.kept] at haims ⊢
    have hloaded : (w.load closing slot site).1.slot.Aims w.terms.port (targets i) :=
      ⟨haims.known, haims.tidy, haims.session⟩
    have hdelivered := (Delivery.steps_aims srv w.terms (targets i)).delivery closing slot site hloaded
    have hsettled : (w.settled srv closing slot site).slot.Aims w.terms.port (targets i) := by
      unfold settled
      split
      · next hd => rwa [hd] at hdelivered
      · next hd =>
        rw [hd] at hdelivered
        exact Delivery.aims_discardSession hdelivered srv w.terms
    obtain ⟨slot₁, hslot₁, hroute, hsession, -⟩ := flush_settled srv closing site hi
    cases hslot'.symm.trans hslot₁
    exact ⟨hroute ▸ hsettled.known, hroute ▸ hsettled.tidy, hroute ▸ hsession ▸ hsettled.session⟩

theorem modify (h : w.Aimed terms targets) {i : Nat} {change : Slot → Slot}
    (hslots : w'.slots = w.slots.modify i change) (hterms : w'.terms = w.terms)
    (hchange : ∀ slot targets, slot.Aims terms.port targets →
      (change slot).Aims terms.port targets) : w'.Aimed terms targets := by
  refine ⟨hterms.trans h.kept, fun j slot hj => ?_⟩
  rw [hslots, List.getElem?_modify] at hj
  obtain ⟨slot₀, hslot₀, rfl⟩ := Option.map_eq_some_iff.mp hj
  split
  · exact hchange slot₀ _ (h.slots j slot₀ hslot₀)
  · exact h.slots j slot₀ hslot₀

theorem gather (h : w.Aimed terms targets) (i : Nat) (content : Content) :
    (w.gather i content).Aimed terms targets :=
  h.modify rfl rfl fun _ _ haims => ⟨haims.known, haims.tidy, haims.session⟩

theorem push (h : w.Aimed terms targets) (srv : Server σ) (i : Nat) (content : Content) (site : Site σ) :
    (w.push srv i content site).2.1.Aimed terms targets := by
  unfold Writer.push
  dsimp only
  split
  · exact (h.gather i content).flush srv i false site
  · exact h.gather i content

theorem hangUp (h : w.Aimed terms targets) (srv : Server σ) (i : Nat) (site : Site σ) :
    (w.hangUp srv i site).1.Aimed terms targets := by
  unfold Writer.hangUp
  split
  · exact h
  · exact h.modify rfl rfl fun _ _ haims => ⟨haims.known, haims.tidy, fun s hs => by cases hs⟩

theorem drainSlot (h : w.Aimed terms targets) (srv : Server σ) (i : Nat) (site : Site σ) :
    (w.drainSlot srv i site).2.1.Aimed terms targets := by
  have hflush : (if w.isBusy i then w.flush srv i true site else (.ok (), w, site)).2.1.Aimed
      terms targets := by
    split
    · exact h.flush srv i true site
    · exact h
  obtain ⟨kind, hd, -⟩ | ⟨result, w₁, site₁, hd, he⟩ := drainSlot_cases srv i w site
  · rwa [hd] at hflush
  · rw [hd] at hflush
    rw [he]
    exact hflush.hangUp srv i site₁

theorem found (h : w.Aimed terms targets) (hw : Found w w') : w'.Aimed terms targets := by
  refine ⟨hw.terms.trans h.kept, fun j slot hj => ?_⟩
  obtain ⟨slot₀, charged, hslot₀, rfl⟩ := hw.getElem? hj
  have haims := h.slots j slot₀ hslot₀
  exact ⟨haims.known, haims.tidy, haims.session⟩

theorem drain (h : w.Aimed terms targets) (srv : Server σ) (is : List Nat) (site : Site σ) :
    (Writer.drain srv is w site).2.1.Aimed terms targets :=
  drain_induction (R := fun s s' => s.1.Aimed terms targets → s'.1.Aimed terms targets) (fun _ => id)
    (fun h h' => h' ∘ h) (fun i _ site h => h.drainSlot srv i site) is w site h

theorem run (h : w.Aimed terms targets) (srv : Server σ) (call : Call) (site : Site σ) :
    (call.run srv w site).2.1.Aimed terms targets := by
  cases call with
  | write files uri source payload =>
    have hfound := h.found (found_receive srv files uri source payload w site)
    dsimp only [Call.run]
    obtain ⟨fault, w₁, site₁, hr, hw⟩ | ⟨e, w₁, site₁, hr, hw⟩ | ⟨i, content, w₁, site₁, hr, hw⟩ :=
      write_cases srv files uri source payload w site
    · rw [hr] at hfound
      rw [hw]
      exact hfound
    · rw [hr] at hfound
      rw [hw]
      exact ⟨hfound.kept, hfound.slots⟩
    · rw [hr] at hfound
      rw [hw]
      exact hfound.push srv i content site₁
  | close =>
    have hdrained := Aimed.drain (w := { w with closed := true }) ⟨h.kept, h.slots⟩ srv (List.range w.slots.length) site
    dsimp only [Call.run]
    unfold Writer.close
    split
    · exact h
    · split
      · next hd => rwa [hd] at hdrained
      · next hd => rwa [hd] at hdrained

end Aimed

/-- The failover targets that are known for a slot when the job starts: with fast load the replicas of
its forest, or the forest itself if it has none, and otherwise the output hosts. -/
def targetsFor (config : Config.Output) (fastLoad : Bool) (m : Placement.Manager) (i : Nat) :
    List Target :=
  if fastLoad then
    match m.forests[i]? with
    | none => []
    | some f =>
      if f.replicas = [] then [⟨f.host, config.port, some f.id⟩]
      else f.replicas.map fun r => ⟨r.host, config.port, some r.forest⟩
  else config.hosts.map fun host => ⟨host, config.port, none⟩

theorem aims_ofForest (port : UInt16) (f : Forest) :
    (Slot.new (.ofForest f)).Aims port (if f.replicas = [] then [⟨f.host, port, some f.id⟩]
      else f.replicas.map fun r => ⟨r.host, port, some r.forest⟩) := by
  refine ⟨?_, trivial, nofun⟩
  dsimp only [Slot.new, Route.ofForest]
  unfold ReplicaCursor.new
  split
  · next hpos => rw [if_neg (List.ne_nil_of_length_pos hpos), Route.known]
  · next hpos => rw [if_pos (List.eq_nil_of_length_eq_zero (by omega)), Route.known]

theorem new_terms {config : Config.Output} {fastLoad : Bool} {m : Placement.Manager} {task : Nat}
    {w : Writer} (hw : Writer.new config fastLoad m task = .ok w) :
    slotsFor config fastLoad m task = .ok w.slots ∧ w.terms = {
      port := config.port
      transaction := if config.usesTransactions then .update else .auto
      batchSize := config.batchSize
      transactionSize := config.transactionSize
      retry := .writer } := by
  unfold Writer.new at hw
  cases hs : slotsFor config fastLoad m task with
  | error e =>
    rw [hs] at hw
    cases hw
  | ok slots =>
    rw [hs] at hw
    cases hw
    exact ⟨rfl, rfl⟩

theorem aimed_new {config : Config.Output} {fastLoad : Bool} {m : Placement.Manager} {task : Nat}
    {w : Writer} (hw : Writer.new config fastLoad m task = .ok w) :
    w.Aimed w.terms (targetsFor config fastLoad m) := by
  obtain ⟨hslots, hterms⟩ := new_terms hw
  refine ⟨rfl, fun i slot hi => ?_⟩
  rw [hterms]
  unfold slotsFor at hslots
  unfold targetsFor
  split at hslots
  · next hfast =>
    rw [← Except.ok.inj hslots, List.getElem?_map] at hi
    obtain ⟨f, hf, rfl⟩ := Option.map_eq_some_iff.mp hi
    rw [if_pos hfast, hf]
    exact aims_ofForest config.port f
  · next hfast =>
    split at hslots
    · next rotation hrotation =>
      rw [← Except.ok.inj hslots] at hi
      cases List.mem_singleton.mp (List.mem_of_getElem? hi)
      have hhosts : rotation.hosts = config.hosts := by
        unfold HostRotation.new at hrotation
        split at hrotation
        · cases hrotation
          rfl
        · cases hrotation
      rw [if_neg hfast, ← hhosts]
      exact ⟨rfl, HostRotation.tidy_new hrotation, fun session hs => by cases hs⟩
    · cases hslots

end ForestCourier.Writer
