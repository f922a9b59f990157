import Mathlib.Algebra.Group.Defs
import ForestCourier.Proofs.Session.Abreast
import ForestCourier.Proofs.Writer.Attempts
import ForestCourier.Proofs.Writer.Steps

/-!
Two deliveries side by side. What a delivery asks for depends on its slot, its batch and the answers so far
alone: two deliveries that start alike go abreast for as long as they get the same answers, and then end
alike, with the same to count.
-/

namespace ForestCourier.Writer

namespace Stats

instance : Add Stats :=
  ⟨fun a b => ⟨a.succeeded + b.succeeded, a.failed + b.failed, a.rotations + b.rotations⟩⟩

instance : Zero Stats := ⟨zero⟩

theorem add_def (a b : Stats) :
    a + b = ⟨a.succeeded + b.succeeded, a.failed + b.failed, a.rotations + b.rotations⟩ := rfl

theorem zero_def : (0 : Stats) = ⟨0, 0, 0⟩ := rfl

instance : AddCommMonoid Stats where
  add_assoc a b c := by simp only [add_def, Nat.add_assoc]
  zero_add a := by simp only [add_def, zero_def, Nat.zero_add]
  add_zero a := by simp only [add_def, zero_def, Nat.add_zero]
  add_comm a b := by simp only [add_def, Nat.add_comm]
  nsmul := nsmulRec

end Stats

def Slot.unnumbered (slot : Slot) : Slot := { slot with session := slot.session.map Session.unnumbered }

namespace Delivery

variable {σ σ₁ σ₂ ε α β : Type}

/-- Two deliveries that are alike, but for what they counted before and for their wires. -/
structure Twins (s₁ s₂ : Stats) (d₁ : Delivery σ₁) (d₂ : Delivery σ₂) : Prop where
  slot : d₁.slot.unnumbered = d₂.slot.unnumbered
  batch : d₁.batch = d₂.batch
  stats : ∃ gain, d₁.stats = s₁ + gain ∧ d₂.stats = s₂ + gain

namespace Twins

variable {s₁ s₂ : Stats} {d₁ : Delivery σ₁} {d₂ : Delivery σ₂}

theorem route (h : Twins s₁ s₂ d₁ d₂) : d₁.slot.route = d₂.slot.route :=
  (Slot.mk.inj h.slot).1

theorem queue (h : Twins s₁ s₂ d₁ d₂) : d₁.slot.queue = d₂.slot.queue :=
  (Slot.mk.inj h.slot).2.2.2.1

/-- Either both have a session, and the same one but for its number, or none has. -/
theorem session_cases (h : Twins s₁ s₂ d₁ d₂) :
    d₁.slot.session = none ∧ d₂.slot.session = none ∨
      ∃ a b, d₁.slot.session = some a ∧ d₂.slot.session = some b ∧ a.unnumbered = b.unnumbered :=
  map_eq_map_cases (Slot.mk.inj h.slot).2.1

theorem gain (h : Twins s₁ s₂ d₁ d₂) (more : Stats) :
    ∃ gain, d₁.stats + more = s₁ + gain ∧ d₂.stats + more = s₂ + gain := by
  obtain ⟨gain, h₁, h₂⟩ := h.stats
  exact ⟨gain + more, by rw [h₁, add_assoc], by rw [h₂, add_assoc]⟩

end Twins

/-- Steps that go abreast if they start from twins, and that end with twins and results that agree. -/
def InStep (s₁ s₂ : Stats) (V : α → α → Prop) (f₁ : Delivery σ₁ → Except ε α × Delivery σ₁)
    (f₂ : Delivery σ₂ → Except ε α × Delivery σ₂) : Prop :=
  ∀ d₁ d₂, Twins s₁ s₂ d₁ d₂ →
    Wire.Abreast (Concur V (f₁ d₁).1 (f₂ d₂).1 ∧ Twins s₁ s₂ (f₁ d₁).2 (f₂ d₂).2)
      d₁.wire (f₁ d₁).2.wire d₂.wire (f₂ d₂).2.wire

def Extends (f : Delivery σ → Except ε α × Delivery σ) : Prop :=
  ∀ d, d.wire.trace <:+ (f d).2.wire.trace

def andThen (f : Delivery σ → Except ε α × Delivery σ) (g : α → Delivery σ → Except ε β × Delivery σ)
    (d : Delivery σ) : Except ε β × Delivery σ :=
  match f d with
  | (.error e, d) => (.error e, d)
  | (.ok a, d) => g a d

theorem Extends.andThen {f : Delivery σ → Except ε α × Delivery σ}
    {g : α → Delivery σ → Except ε β × Delivery σ} (hf : Extends f) (hg : ∀ a, Extends (g a)) :
    Extends (andThen f g) := by
  intro d
  have hfirst := hf d
  unfold Delivery.andThen
  split
  · next he => rwa [he] at hfirst
  · next a d' he =>
    rw [he] at hfirst
    exact hfirst.trans (hg a d')

/-- If the first steps have diverged it does not matter how the second ones go on. -/
theorem andThen_abreast {s₁ s₂ : Stats} {V : α → α → Prop} {W : β → β → Prop}
    {f₁ : Delivery σ₁ → Except ε α × Delivery σ₁} {f₂ : Delivery σ₂ → Except ε α × Delivery σ₂}
    {g₁ : α → Delivery σ₁ → Except ε β × Delivery σ₁} {g₂ : α → Delivery σ₂ → Except ε β × Delivery σ₂} {d₁ : Delivery σ₁} {d₂ : Delivery σ₂}
    (hf : Wire.Abreast (Concur V (f₁ d₁).1 (f₂ d₂).1 ∧ Twins s₁ s₂ (f₁ d₁).2 (f₂ d₂).2)
      d₁.wire (f₁ d₁).2.wire d₂.wire (f₂ d₂).2.wire)
    (hg : ∀ a b, V a b → InStep s₁ s₂ W (g₁ a) (g₂ b)) (h₁ : ∀ a, Extends (g₁ a))
    (h₂ : ∀ a, Extends (g₂ a)) :
    Wire.Abreast (Concur W (andThen f₁ g₁ d₁).1 (andThen f₂ g₂ d₂).1 ∧
        Twins s₁ s₂ (andThen f₁ g₁ d₁).2 (andThen f₂ g₂ d₂).2)
      d₁.wire (andThen f₁ g₁ d₁).2.wire d₂.wire (andThen f₂ g₂ d₂).2.wire := by
  unfold Delivery.andThen
  cases he₁ : f₁ d₁ with
  | mk r₁ b₁ =>
    cases he₂ : f₂ d₂ with
    | mk r₂ b₂ =>
      rw [he₁, he₂] at hf
      cases r₁ with
      | error e₁ =>
        cases r₂ with
        | error e₂ => exact hf
        | ok a₂ => exact hf.trans (List.suffix_refl _) (h₂ a₂ b₂) fun hboth => hboth.1.elim
      | ok a₁ =>
        cases r₂ with
        | error e₂ => exact hf.trans (h₁ a₁ b₁) (List.suffix_refl _) fun hboth => hboth.1.elim
        | ok a₂ =>
          exact hf.trans (h₁ a₁ b₁) (h₂ a₂ b₂) fun hboth =>
            hg a₁ a₂ hboth.1 b₁ b₂ hboth.2

def send (request : Wire σ → Except ε α × Wire σ) (d : Delivery σ) : Except ε α × Delivery σ :=
  match request d.wire with
  | (r, w) => (r, { d with wire := w })

theorem Twins.send {s₁ s₂ : Stats} {d₁ : Delivery σ₁} {d₂ : Delivery σ₂} (h : Twins s₁ s₂ d₁ d₂)
    {V : α → α → Prop} {request₁ : Wire σ₁ → Except ε α × Wire σ₁} {request₂ : Wire σ₂ → Except ε α × Wire σ₂}
    (hwire : Wire.Abreast (Concur V (request₁ d₁.wire).1 (request₂ d₂.wire).1) d₁.wire (request₁ d₁.wire).2
      d₂.wire (request₂ d₂.wire).2) :
    Wire.Abreast (Concur V (Delivery.send request₁ d₁).1 (Delivery.send request₂ d₂).1 ∧
        Twins s₁ s₂ (Delivery.send request₁ d₁).2 (Delivery.send request₂ d₂).2)
      d₁.wire (Delivery.send request₁ d₁).2.wire d₂.wire (Delivery.send request₂ d₂).2.wire :=
  hwire.mono fun hsame => ⟨hsame, h.slot, h.batch, h.stats⟩

section Records

variable (srv : Server σ) (terms : Terms)

theorem insert_records (session : Session) (docs : List Content) (d : Delivery σ) :
    srv.Records d.wire (d.insert srv session docs).2.wire := by
  have hinsert : srv.Records d.wire (d.wire.insert srv session docs).2 := .of_cons rfl ⟨_, rfl⟩
  unfold insert
  split
  · exact .of_same rfl
  · split
    · next he => rwa [he] at hinsert
    · next w he =>
      rw [he] at hinsert
      exact hinsert.trans (.of_same (Wire.trace_foldl_note _ w))

theorem discardSession_records (d : Delivery σ) :
    srv.Records d.wire (d.discardSession srv terms).wire := by
  unfold discardSession
  split
  · exact .of_same rfl
  · next session _ =>
    dsimp only
    split
    · exact .of_cons rfl ⟨_, rfl⟩
    · have hrollback : srv.Records d.wire (d.wire.rollback srv session) := .of_cons rfl ⟨_, rfl⟩
      exact hrollback.trans (.of_cons rfl ⟨_, rfl⟩)

theorem steps_records : Steps srv terms fun d d' => srv.Records d.wire d'.wire where
  refl _ := .of_same rfl
  trans h h' := h.trans h'
  ensureSession d := by
    have hopen := Server.Records.openSession srv (d.slot.route.target terms.port) terms.transaction d.wire
    unfold Delivery.ensureSession
    split
    · exact .of_same rfl
    · split
      · next he => rwa [he] at hopen
      · next he => rwa [he] at hopen
  replayQueue session d := by
    have hinsert := insert_records srv session d.slot.queue d
    unfold Delivery.replayQueue
    split
    · next he => rwa [he] at hinsert
    · next he => rwa [he] at hinsert
  insertBatch session d := by
    have hinsert := insert_records srv session d.batch d
    unfold Delivery.insertBatch
    split
    · next he => rwa [he] at hinsert
    · next he => rwa [he] at hinsert
  settleAuto _ _ := .of_same rfl
  enqueue _ _ := .of_same rfl
  commit _ session d := by
    have hcommit : srv.Records d.wire (d.wire.commit srv session).2 := .of_cons rfl ⟨_, rfl⟩
    unfold Delivery.commit
    split
    · next he => rwa [he] at hcommit
    · next he => rwa [he] at hcommit
  failOver e n d := (discardSession_records srv terms d).trans (.of_cons rfl trivial)
  stage _ _ := .of_same rfl

end Records

section InStep

variable {s₁ s₂ : Stats} (srv₁ : Server σ₁) (srv₂ : Server σ₂) (terms : Terms)

theorem ensureSession_eq {srv : Server σ} {terms : Terms} {d : Delivery σ} (h : d.slot.session = none) :
    d.ensureSession srv terms =
      andThen (send (Wire.openSession srv (d.slot.route.target terms.port) terms.transaction))
        (fun session d => (.ok session, { d with slot := { d.slot with session := some session } })) d := by
  unfold ensureSession Delivery.andThen send
  rw [h]
  cases d.wire.openSession srv (d.slot.route.target terms.port) terms.transaction with
  | mk r w => cases r <;> rfl

theorem inStep_ensureSession : InStep s₁ s₂ (fun a b => a.unnumbered = b.unnumbered)
    (ensureSession srv₁ terms) (ensureSession srv₂ terms) := by
  intro d₁ d₂ h
  obtain ⟨h₁, h₂⟩ | ⟨a, b, h₁, h₂, hsame⟩ := h.session_cases
  · rw [ensureSession_eq h₁, ensureSession_eq h₂, ← h.route]
    refine andThen_abreast (h.send (Wire.abreast_openSession srv₁ srv₂ _ _ _ _)) (fun a b hsame d₁ d₂ h => ?_)
      (fun _ _ => List.suffix_refl _) fun _ _ => List.suffix_refl _
    refine .of_same ⟨hsame, ?_, h.batch, h.stats⟩ rfl rfl
    have hslot := congrArg (fun s : Slot => { s with session := some a.unnumbered }) h.slot
    exact hslot.trans (by rw [hsame]; rfl)
  · unfold ensureSession
    rw [h₁, h₂]
    exact .of_same ⟨hsame, h⟩ rfl rfl

theorem insert_eq (srv : Server σ) (session : Session) {docs : List Content} (hdocs : docs.isEmpty = false)
    (d : Delivery σ) :
    d.insert srv session docs = andThen (send (Wire.insert srv session docs))
      (fun rejections d => (.ok (without docs (rejectedIndices docs rejections)), { d with
        stats := { d.stats with failed := d.stats.failed + (rejectedIndices docs rejections).length }
        wire := (rejectionNotices docs rejections).foldl Wire.note d.wire })) d := by
  unfold insert Delivery.andThen send
  rw [hdocs, if_neg Bool.false_ne_true]
  cases d.wire.insert srv session docs with
  | mk r w => cases r <;> rfl

theorem inStep_insert {a b : Session} (hsame : a.unnumbered = b.unnumbered) (docs : List Content) :
    InStep s₁ s₂ Eq (insert srv₁ a docs) (insert srv₂ b docs) := by
  intro d₁ d₂ h
  cases hdocs : docs.isEmpty with
  | true =>
    unfold insert
    rw [if_pos hdocs, if_pos hdocs]
    exact .of_same ⟨rfl, h⟩ rfl rfl
  | false =>
    have hextends {τ : Type} (rejections : List Rejection) (d : Delivery τ) :
        d.wire.trace <:+ ((rejectionNotices docs rejections).foldl Wire.note d.wire).trace := by
      simp only [Wire.trace_foldl_note, List.suffix_refl]
    rw [insert_eq srv₁ a hdocs, insert_eq srv₂ b hdocs]
    refine andThen_abreast (h.send (Wire.abreast_insert srv₁ srv₂ hsame docs))
      (fun rejections _ hrejections d₁ d₂ h => ?_) hextends hextends
    cases hrejections
    exact .of_same ⟨rfl, h.slot, h.batch, h.gain ⟨0, (rejectedIndices docs rejections).length, 0⟩⟩
      (Wire.trace_foldl_note _ _) (Wire.trace_foldl_note _ _)

theorem replayQueue_eq (srv : Server σ) (session : Session) (d : Delivery σ) :
    d.replayQueue srv session = andThen (insert srv session d.slot.queue)
      (fun queue d => (.ok (), { d with slot := { d.slot with queue := queue } })) d := by
  unfold replayQueue Delivery.andThen
  cases d.insert srv session d.slot.queue with
  | mk r d => cases r <;> rfl

theorem insertBatch_eq (srv : Server σ) (session : Session) (d : Delivery σ) :
    d.insertBatch srv session = andThen (insert srv session d.batch)
      (fun batch d => (.ok (), { d with batch := batch })) d := by
  unfold insertBatch Delivery.andThen
  cases d.insert srv session d.batch with
  | mk r d => cases r <;> rfl

theorem inStep_replayQueue {a b : Session} (hsame : a.unnumbered = b.unnumbered) :
    InStep s₁ s₂ Eq (replayQueue srv₁ a) (replayQueue srv₂ b) := by
  intro d₁ d₂ h
  rw [replayQueue_eq, replayQueue_eq, ← h.queue]
  refine andThen_abreast (inStep_insert srv₁ srv₂ hsame d₁.slot.queue d₁ d₂ h)
    (fun queue _ hqueue d₁ d₂ h => ?_) (fun _ _ => List.suffix_refl _) (fun _ _ => List.suffix_refl _)
  cases hqueue
  exact .of_same ⟨rfl, congrArg (fun s : Slot => { s with queue := queue }) h.slot, h.batch, h.stats⟩ rfl rfl

theorem inStep_insertBatch {a b : Session} (hsame : a.unnumbered = b.unnumbered) :
    InStep s₁ s₂ Eq (insertBatch srv₁ a) (insertBatch srv₂ b) := by
  intro d₁ d₂ h
  rw [insertBatch_eq, insertBatch_eq, ← h.batch]
  refine andThen_abreast (inStep_insert srv₁ srv₂ hsame d₁.batch d₁ d₂ h)
    (fun batch _ hbatch d₁ d₂ h => ?_) (fun _ _ => List.suffix_refl _) (fun _ _ => List.suffix_refl _)
  cases hbatch
  exact .of_same ⟨rfl, h.slot, rfl, h.stats⟩ rfl rfl

theorem Twins.settleAuto {d₁ : Delivery σ₁} {d₂ : Delivery σ₂} (h : Twins s₁ s₂ d₁ d₂) :
    Twins s₁ s₂ d₁.settleAuto d₂.settleAuto where
  slot := congrArg (fun s : Slot => { s with charged := 0, stage := .committed }) h.slot
  batch := rfl
  stats := by
    obtain ⟨gain, h₁, h₂⟩ := h.gain ⟨d₁.batch.length, 0, 0⟩
    rw [h.batch] at h₂
    exact ⟨gain, h₁, h₂⟩

theorem Twins.enqueue {d₁ : Delivery σ₁} {d₂ : Delivery σ₂} (h : Twins s₁ s₂ d₁ d₂) :
    Twins s₁ s₂ d₁.enqueue d₂.enqueue where
  slot := by
    have hslot := congrArg (fun s : Slot =>
      { s with queue := s.queue ++ d₁.batch, stage := .commitPending }) h.slot
    exact hslot.trans (by rw [h.batch]; rfl)
  batch := rfl
  stats := h.stats

theorem commit_eq (srv : Server σ) (session : Session) (d : Delivery σ) :
    d.commit srv session = andThen (send (Wire.commit srv session)) (fun _ d => (.ok (), { d with
      slot := { d.slot with queue := [], batches := 0, charged := 0, stage := .committed }
      stats := { d.stats with succeeded := d.stats.succeeded + d.slot.queue.length } })) d := by
  unfold commit Delivery.andThen send
  cases d.wire.commit srv session with
  | mk r w => cases r <;> rfl

theorem inStep_commit {a b : Session} (hsame : a.unnumbered = b.unnumbered) :
    InStep s₁ s₂ Eq (commit srv₁ a) (commit srv₂ b) := by
  intro d₁ d₂ h
  rw [commit_eq, commit_eq]
  refine andThen_abreast (h.send (Wire.abreast_commit srv₁ srv₂ hsame)) (fun _ _ _ d₁ d₂ h => ?_)
    (fun _ _ => List.suffix_refl _) fun _ _ => List.suffix_refl _
  refine .of_same ⟨rfl, ?_, h.batch, ?_⟩ rfl rfl
  · exact congrArg (fun s : Slot =>
      { s with queue := [], batches := 0, charged := 0, stage := .committed }) h.slot
  · obtain ⟨gain, h₁, h₂⟩ := h.gain ⟨d₁.slot.queue.length, 0, 0⟩
    rw [h.queue] at h₂
    exact ⟨gain, h₁, h₂⟩

def finish (srv : Server σ) (terms : Terms) (ending : Bool) (session : Session) (d : Delivery σ) :
    Except RequestError Unit × Delivery σ :=
  match terms.transaction with
  | .auto => (.ok (), d.settleAuto)
  | .update => if ending then d.enqueue.commit srv session else (.ok (), d.enqueue)

theorem attempt_eq (srv : Server σ) (terms : Terms) (replay ending : Bool) (d : Delivery σ) :
    d.attempt srv terms replay ending = andThen (ensureSession srv terms) (fun session =>
      andThen (fun d => if replay then d.replayQueue srv session else (.ok (), d)) fun _ =>
        andThen (insertBatch srv session) fun _ => finish srv terms ending session) d := by
  unfold attempt
  simp only [Delivery.andThen]
  cases d.ensureSession srv terms with
  | mk r d =>
    cases r with
    | error e => rfl
    | ok session =>
      dsimp only
      generalize (if replay then d.replayQueue srv session else (.ok (), d)) = replayed
      obtain ⟨r, d⟩ := replayed
      cases r with
      | error e => rfl
      | ok u =>
        dsimp only
        cases d.insertBatch srv session with
        | mk r d => cases r <;> rfl

theorem inStep_finish (ending : Bool) {a b : Session} (hsame : a.unnumbered = b.unnumbered) :
    InStep s₁ s₂ Eq (finish srv₁ terms ending a) (finish srv₂ terms ending b) := by
  intro d₁ d₂ h
  unfold finish
  split
  · exact .of_same ⟨rfl, h.settleAuto⟩ rfl rfl
  · split
    · exact inStep_commit srv₁ srv₂ hsame d₁.enqueue d₂.enqueue h.enqueue
    · exact .of_same ⟨rfl, h.enqueue⟩ rfl rfl

theorem extends_finish (srv : Server σ) (terms : Terms) (ending : Bool) (session : Session) :
    Extends (finish srv terms ending session) := by
  intro d
  have hsteps := steps_records srv terms
  unfold finish
  split
  · exact List.suffix_refl _
  · next hupdate =>
    split
    · exact (hsteps.commit hupdate session d.enqueue).suffix
    · exact List.suffix_refl _

theorem extends_replay (srv : Server σ) (terms : Terms) (replay : Bool) (session : Session) :
    Extends fun d => if replay then d.replayQueue srv session else (.ok (), d) :=
  fun d => ((steps_records srv terms).replay replay session d).suffix

theorem extends_insertBatch (srv : Server σ) (terms : Terms) (session : Session) :
    Extends (insertBatch srv session) :=
  fun d => ((steps_records srv terms).insertBatch session d).suffix

theorem inStep_attempt (replay ending : Bool) :
    InStep s₁ s₂ Eq (attempt srv₁ terms replay ending) (attempt srv₂ terms replay ending) := by
  have hinserted {τ : Type} (srv : Server τ) (session : Session) : Extends
      (andThen (insertBatch srv session) fun _ => finish srv terms ending session) :=
    (extends_insertBatch srv terms session).andThen fun _ => extends_finish srv terms ending session
  have hreplayed {τ : Type} (srv : Server τ) (session : Session) : Extends
      (andThen (fun d => if replay then d.replayQueue srv session else (.ok (), d)) fun _ =>
        andThen (insertBatch srv session) fun _ => finish srv terms ending session) :=
    (extends_replay srv terms replay session).andThen fun _ => hinserted srv session
  intro d₁ d₂ h
  rw [attempt_eq, attempt_eq]
  refine andThen_abreast (inStep_ensureSession srv₁ srv₂ terms d₁ d₂ h) (fun a b hsame d₁ d₂ h => ?_)
    (hreplayed srv₁) (hreplayed srv₂)
  refine andThen_abreast (V := Eq) ?_ (fun _ _ _ d₁ d₂ h => ?_) (fun _ => hinserted srv₁ a) fun _ =>
    hinserted srv₂ b
  · cases replay with
    | true => exact inStep_replayQueue srv₁ srv₂ hsame d₁ d₂ h
    | false => exact .of_same ⟨rfl, h⟩ rfl rfl
  · exact andThen_abreast (inStep_insertBatch srv₁ srv₂ hsame d₁ d₂ h)
      (fun _ _ _ => inStep_finish srv₁ srv₂ terms ending hsame)
      (fun _ => extends_finish srv₁ terms ending a) fun _ => extends_finish srv₂ terms ending b

theorem Twins.discardSession {d₁ : Delivery σ₁} {d₂ : Delivery σ₂} (h : Twins s₁ s₂ d₁ d₂) :
    Wire.Abreast (Twins s₁ s₂ (d₁.discardSession srv₁ terms) (d₂.discardSession srv₂ terms))
      d₁.wire (d₁.discardSession srv₁ terms).wire d₂.wire (d₂.discardSession srv₂ terms).wire := by
  unfold Delivery.discardSession
  obtain ⟨h₁, h₂⟩ | ⟨a, b, h₁, h₂, hsame⟩ := h.session_cases
  · rw [h₁, h₂]
    exact .of_same h rfl rfl
  · rw [h₁, h₂]
    dsimp only
    have htwins (w₁ : Wire σ₁) (w₂ : Wire σ₂) :
        Twins s₁ s₂ { d₁ with slot := { d₁.slot with session := none }, wire := w₁ }
          { d₂ with slot := { d₂.slot with session := none }, wire := w₂ } :=
      ⟨congrArg (fun s : Slot => { s with session := none }) h.slot, h.batch, h.stats⟩
    cases terms.transaction with
    | auto => exact (Wire.abreast_close srv₁ srv₂ hsame).mono fun _ => htwins _ _
    | update =>
      refine (Wire.abreast_rollback srv₁ srv₂ hsame).trans ⟨[_], rfl⟩ ⟨[_], rfl⟩ fun _ => ?_
      exact (Wire.abreast_close srv₁ srv₂ hsame).mono fun _ => htwins _ _

theorem Twins.failOver {d₁ : Delivery σ₁} {d₂ : Delivery σ₂} (h : Twins s₁ s₂ d₁ d₂) (e : RequestError)
    (n : Nat) :
    Wire.Abreast (Twins s₁ s₂ (d₁.failOver srv₁ terms e n) (d₂.failOver srv₂ terms e n))
      d₁.wire (d₁.failOver srv₁ terms e n).wire d₂.wire (d₂.failOver srv₂ terms e n).wire := by
  have hroute := h.route
  refine (h.discardSession srv₁ srv₂ terms).trans ⟨[_], rfl⟩ ⟨[_], rfl⟩ fun hdiscarded => ?_
  refine .of_cons rfl rfl rfl fun _ => ⟨?_, hdiscarded.batch, ?_⟩
  · unfold Delivery.failOver
    rw [← hroute]
    exact congrArg (fun s : Slot => { s with route := d₁.slot.route.rotate, stage := .commitRetry })
      hdiscarded.slot
  · unfold Delivery.failOver
    rw [← hroute]
    dsimp only
    split
    · exact hdiscarded.gain ⟨0, 0, 1⟩
    · exact hdiscarded.stats

def goOn (srv : Server σ) (terms : Terms) (ending : Bool) (left n : Nat) :
    Except RequestError Unit → Delivery σ → Except (RequestError × Nat) Unit × Delivery σ
  | .ok (), d =>
    (.ok (), if d.slot.queue.isEmpty then { d with slot := { d.slot with stage := .idle } } else d)
  | .error e, d =>
    if e.isRetryable then
      match left with
      | 0 => (.error (e, n), d)
      | left + 1 => run srv terms ending left (n + 1) true (d.failOver srv terms e n)
    else (.error (e, n), d)

theorem run_eq (srv : Server σ) (terms : Terms) (ending : Bool) (left n : Nat) (replay : Bool)
    (d : Delivery σ) :
    run srv terms ending left n replay d = goOn srv terms ending left n
      (d.attempt srv terms replay ending).1 (d.attempt srv terms replay ending).2 := by
  unfold run goOn
  cases d.attempt srv terms replay ending with
  | mk r d => cases r <;> rfl

theorem extends_goOn (srv : Server σ) (terms : Terms) (ending : Bool) (left n : Nat)
    (r : Except RequestError Unit) : Extends (goOn srv terms ending left n r) := by
  intro d
  have hsteps := steps_records srv terms
  unfold goOn
  split
  · dsimp only
    split
    · exact List.suffix_refl _
    · exact List.suffix_refl _
  · split
    · split
      · exact List.suffix_refl _
      · exact ((hsteps.failOver _ n d).trans (hsteps.run ending _ (n + 1) true _)).suffix
    · exact List.suffix_refl _

theorem inStep_goOn (ending : Bool) (left n : Nat)
    (hrun : ∀ more, left = more + 1 → ∀ n replay,
      InStep s₁ s₂ Eq (run srv₁ terms ending more n replay) (run srv₂ terms ending more n replay))
    {r₁ r₂ : Except RequestError Unit} (hsame : Concur Eq r₁ r₂) :
    InStep s₁ s₂ Eq (goOn srv₁ terms ending left n r₁) (goOn srv₂ terms ending left n r₂) := by
  intro d₁ d₂ h
  cases r₁ with
  | ok u =>
    cases r₂ with
    | error e => exact hsame.elim
    | ok v =>
      have hempty : d₁.slot.queue.isEmpty = d₂.slot.queue.isEmpty := by rw [h.queue]
      unfold goOn
      dsimp only
      rw [hempty]
      split
      · exact .of_same ⟨rfl, congrArg (fun s : Slot => { s with stage := .idle }) h.slot, h.batch, h.stats⟩
          rfl rfl
      · exact .of_same ⟨rfl, h⟩ rfl rfl
  | error e₁ =>
    cases r₂ with
    | ok v => exact hsame.elim
    | error e₂ =>
      cases (show e₁ = e₂ from hsame)
      unfold goOn
      dsimp only
      split
      · split
        · exact .of_same ⟨rfl, h⟩ rfl rfl
        · next more =>
          refine (h.failOver srv₁ srv₂ terms e₁ n).trans ?_ ?_ fun htwins => ?_
          · exact ((steps_records srv₁ terms).run ending more (n + 1) true _).suffix
          · exact ((steps_records srv₂ terms).run ending more (n + 1) true _).suffix
          · exact hrun more rfl (n + 1) true _ _ htwins
      · exact .of_same ⟨rfl, h⟩ rfl rfl

/-- By induction on the attempts that are left: the first attempts are in step, and what follows them is by
the induction hypothesis. -/
theorem inStep_run (ending : Bool) (left n : Nat) (replay : Bool) :
    InStep s₁ s₂ Eq (run srv₁ terms ending left n replay) (run srv₂ terms ending left n replay) := by
  have hgoOn {left : Nat} (n : Nat) (replay : Bool)
      (hrest : ∀ r₁ r₂, Concur Eq r₁ r₂ → InStep s₁ s₂ Eq (goOn srv₁ terms ending left n r₁)
        (goOn srv₂ terms ending left n r₂)) :
      InStep s₁ s₂ Eq (run srv₁ terms ending left n replay) (run srv₂ terms ending left n replay) := by
    intro d₁ d₂ h
    rw [run_eq, run_eq]
    refine (inStep_attempt srv₁ srv₂ terms replay ending d₁ d₂ h).trans (extends_goOn ..) (extends_goOn ..) ?_
    exact fun hboth => hrest _ _ hboth.1 _ _ hboth.2
  induction left generalizing n replay with
  | zero =>
    exact hgoOn n replay fun r₁ r₂ hsame =>
      inStep_goOn srv₁ srv₂ terms ending 0 n (fun _ hmore => by cases hmore) hsame
  | succ left ih =>
    refine hgoOn n replay fun r₁ r₂ hsame => inStep_goOn srv₁ srv₂ terms ending (left + 1) n ?_ hsame
    intro more hmore
    cases hmore
    exact ih

/-- The delivery that a flush puts back: as it is if it succeeded, and else settled. -/
def ended (srv : Server σ₁) (terms : Terms) : Except (RequestError × Nat) Unit → Delivery σ₁ → Delivery σ₁
  | .ok (), d => d
  | .error (e, n), d => (d.clear srv terms).report e n d.lost

theorem ended_records (srv : Server σ₁) (terms : Terms) (r : Except (RequestError × Nat) Unit)
    (d : Delivery σ₁) : srv.Records d.wire (ended srv terms r d).wire := by
  cases r with
  | ok u => exact .of_same rfl
  | error failure => exact discardSession_records srv terms d

theorem Twins.ended {d₁ : Delivery σ₁} {d₂ : Delivery σ₂} (h : Twins s₁ s₂ d₁ d₂)
    (r : Except (RequestError × Nat) Unit) :
    Wire.Abreast (Twins s₁ s₂ (Delivery.ended srv₁ terms r d₁) (Delivery.ended srv₂ terms r d₂))
      d₁.wire (Delivery.ended srv₁ terms r d₁).wire d₂.wire (Delivery.ended srv₂ terms r d₂).wire := by
  cases r with
  | ok u => exact .of_same h rfl rfl
  | error failure =>
    obtain ⟨e, n⟩ := failure
    have hlost : d₁.lost = d₂.lost := by rw [lost, lost, h.queue, h.batch]
    refine (h.discardSession srv₁ srv₂ terms).mono fun hdiscarded => ⟨?_, rfl, ?_⟩
    · exact congrArg (fun s : Slot => { s with queue := [], batches := 0, charged := 0, stage := .idle })
        hdiscarded.slot
    · obtain ⟨gain, h₁, h₂⟩ := hdiscarded.gain ⟨0, d₁.lost.length, 0⟩
      rw [hlost] at h₂
      exact ⟨gain, h₁, h₂⟩

end InStep

end Delivery

end ForestCourier.Writer
