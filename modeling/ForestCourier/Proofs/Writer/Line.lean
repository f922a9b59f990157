import ForestCourier.Proofs.Session.Protocol
import ForestCourier.Proofs.Writer.Aim
import ForestCourier.Proofs.Writer.Attempts

/-!
The line of a slot to its servers. A slot has one session at most, which is opened where the slot's
route leads; once a request on it has failed, nothing is left to do on it but to roll its transaction
back, if it has one, and to close it; and the route moves on only while there is no session. Whatever a
delivery asks for keeps to that.
-/

namespace ForestCourier

namespace Writer

inductive Line where
  | down
  | up (session : Session)
  /-- A request on the session has failed. -/
  | broken (session : Session)
  /-- Its transaction has been rolled back. -/
  | released (session : Session)
deriving DecidableEq

def Line.session? : Line → Option Session
  | down => none
  | up session | broken session | released session => some session

structure Post where
  route : Route
  line : Line
deriving DecidableEq

namespace Post

/-- What a request makes of a slot, if it may be made for it. A session is opened where the route leads,
and only when there is none; inserts and commits are for that session, and commits for transactions only.
After one that failed the session is rolled back, if it has a transaction, and then closed; and it is
without a session that the slot waits, and turns to the next target. -/
def step (terms : Terms) (p : Post) (event : Event) : Option Post :=
  match p.line, event with
  | .down, .opened session =>
    if session.target = p.route.target terms.port ∧ session.transaction = terms.transaction then
      some ⟨p.route, .up session⟩
    else none
  | .down, .refused target transaction _ =>
    if target = p.route.target terms.port ∧ transaction = terms.transaction then some p else none
  | .down, .waited _ => some ⟨p.route.rotate, .down⟩
  | .up session, .inserted s _ answer =>
    if s = session then
      match answer with
      | .ok _ => some p
      | .error _ => some ⟨p.route, .broken session⟩
    else none
  | .up session, .committed s answer =>
    if s = session ∧ terms.transaction = .update then
      match answer with
      | .ok _ => some p
      | .error _ => some ⟨p.route, .broken session⟩
    else none
  | .up session, .closed s _ => if s = session then some ⟨p.route, .down⟩ else none
  | .broken session, .rolledBack s _ =>
    if s = session ∧ terms.transaction = .update then some ⟨p.route, .released session⟩ else none
  | .broken session, .closed s _ =>
    if s = session ∧ terms.transaction = .auto then some ⟨p.route, .down⟩ else none
  | .released session, .closed s _ => if s = session then some ⟨p.route, .down⟩ else none
  | _, _ => none

end Post

def Slot.post (slot : Slot) : Post := ⟨slot.route, slot.session.elim .down .up⟩

namespace Delivery

variable {σ : Type} {srv : Server σ} {terms : Terms} {d d' : Delivery σ}

def failed (d : Delivery σ) : Post := ⟨d.slot.route, d.slot.session.elim .down .broken⟩

theorem tries_post (srv : Server σ) (terms : Terms) :
    Tries srv terms
      (fun d d' => Wire.Drives (Post.step terms) d.slot.post d.wire d'.slot.post d'.wire)
      (fun _ d d' => Wire.Drives (Post.step terms) d.slot.post d.wire d'.failed d'.wire) where
  same {d d'} hroute hsession htrace hopened :=
    .of_same (by rw [Slot.post, hroute, hsession]; rfl) htrace hopened
  trans := .trans
  fail := .trans
  accepted d session w hnone hopen := by
    obtain ⟨hsession, hopened, -⟩ := Wire.openSession_ok hopen
    refine .of_opened (Wire.trace_openSession_ok hopen) hopened (by rw [hsession]) ?_
    simp [Slot.post, hnone, Post.step, hsession]
  refused d e w hnone hopen := by
    refine .of_cons (Wire.trace_openSession_error hopen) (Wire.openSession_error hopen).1 rfl ?_
    simp [Slot.post, failed, hnone, Post.step]
  inserted session docs d rejections w hsession hinsert := by
    obtain ⟨htrace, hopened⟩ := Wire.trace_insert hinsert
    refine .of_cons htrace hopened rfl ?_
    simp [Slot.post, hsession, Post.step]
  notInserted session docs d e w hsession hinsert := by
    obtain ⟨htrace, hopened⟩ := Wire.trace_insert hinsert
    refine .of_cons htrace hopened rfl ?_
    simp [Slot.post, failed, hsession, Post.step]
  committed hupdate session d w hsession hcommit := by
    obtain ⟨htrace, hopened⟩ := Wire.trace_commit hcommit
    refine .of_cons htrace hopened rfl ?_
    simp [Slot.post, hsession, Post.step, hupdate]
  notCommitted hupdate session d e w hsession hcommit := by
    obtain ⟨htrace, hopened⟩ := Wire.trace_commit hcommit
    refine .of_cons htrace hopened rfl ?_
    simp [Slot.post, failed, hsession, Post.step, hupdate]

theorem discardSession_drives (srv : Server σ) (terms : Terms) (d : Delivery σ) :
    (d.discardSession srv terms).slot.session = none ∧
      Wire.Drives (Post.step terms) d.failed d.wire (d.discardSession srv terms).slot.post
        (d.discardSession srv terms).wire := by
  unfold discardSession
  split
  · next hnone =>
    refine ⟨hnone, .of_same ?_ rfl rfl⟩
    rw [Slot.post, failed, hnone]
    rfl
  · next session hsession =>
    refine ⟨rfl, ?_⟩
    dsimp only
    cases hmode : terms.transaction with
    | auto =>
      refine .of_cons rfl rfl rfl ?_
      simp [Slot.post, failed, hsession, Post.step, hmode]
    | update =>
      have hrollback : Wire.Drives (Post.step terms) d.failed d.wire ⟨d.slot.route, .released session⟩
          (d.wire.rollback srv session) := by
        refine .of_cons rfl rfl rfl ?_
        simp [failed, hsession, Post.step, hmode]
      refine hrollback.trans (.of_cons rfl rfl rfl ?_)
      simp [Slot.post, Post.step]

theorem failOver_drives (srv : Server σ) (terms : Terms) (e : RequestError) (n : Nat)
    (d : Delivery σ) :
    Wire.Drives (Post.step terms) d.failed d.wire (d.failOver srv terms e n).slot.post
      (d.failOver srv terms e n).wire := by
  obtain ⟨-, hdiscarded⟩ := discardSession_drives srv terms d
  refine hdiscarded.trans (.of_cons rfl rfl rfl ?_)
  simp [Slot.post, failOver, slot_discardSession, Post.step]

theorem run_drives (srv : Server σ) (terms : Terms) (ending : Bool) (left n : Nat) (replay : Bool)
    (d : Delivery σ) :
    match run srv terms ending left n replay d with
    | (.ok _, d') => Wire.Drives (Post.step terms) d.slot.post d.wire d'.slot.post d'.wire
    | (.error _, d') => Wire.Drives (Post.step terms) d.slot.post d.wire d'.failed d'.wire := by
  fun_induction run srv terms ending left n replay d with
  | case1 left n replay d d₁ he =>
    have hattempt := (tries_post srv terms).attempt replay ending d
    rw [he] at hattempt
    dsimp only
    split
    · exact hattempt
    · exact hattempt
  | case2 n replay d e d₁ he hretryable =>
    have hattempt := (tries_post srv terms).attempt replay ending d
    rwa [he] at hattempt
  | case3 n replay d e d₁ he hretryable left ih =>
    have hattempt := (tries_post srv terms).attempt replay ending d
    rw [he] at hattempt
    have hmoved := Wire.Drives.trans hattempt (failOver_drives srv terms e n d₁)
    split at ih
    · exact hmoved.trans ih
    · exact hmoved.trans ih
  | case4 left n replay d e d₁ he hretryable =>
    have hattempt := (tries_post srv terms).attempt replay ending d
    rwa [he] at hattempt

end Delivery

variable {σ : Type} {w : Writer} {slot : Slot}

theorem settled_drives (srv : Server σ) (closing : Bool) (slot : Slot) (w : Writer) (site : Site σ) :
    Wire.Drives (Post.step w.terms) slot.post site.wire (w.settled srv closing slot site).slot.post
      (w.settled srv closing slot site).wire := by
  have hrun := Delivery.run_drives srv w.terms (w.load closing slot site).2 (w.terms.maxAttempts - 1) 1
    false (w.load closing slot site).1
  unfold settled delivery Delivery.deliver
  split at hrun
  · next hd =>
    rw [hd]
    exact hrun
  · next d hd =>
    rw [hd]
    exact hrun.trans (Delivery.discardSession_drives srv w.terms d).2

theorem flush_drives (srv : Server σ) {i : Nat} (closing : Bool) (site : Site σ)
    (hi : w.slots[i]? = some slot) :
    ∃ slot', (w.flush srv i closing site).2.1.slots[i]? = some slot' ∧
      Wire.Drives (Post.step w.terms) slot.post site.wire slot'.post (w.flush srv i closing site).2.2.wire := by
  obtain ⟨slot', hslot', hroute, hsession, htrace, hopened⟩ := flush_settled srv closing site hi
  refine ⟨slot', hslot', (settled_drives srv closing slot w site).trans (.of_same ?_ htrace hopened)⟩
  rw [Slot.post, Slot.post, hroute, hsession]

theorem push_drives (srv : Server σ) {i : Nat} (content : Content) (site : Site σ)
    (hi : w.slots[i]? = some slot) :
    ∃ slot', (w.push srv i content site).2.1.slots[i]? = some slot' ∧
      Wire.Drives (Post.step w.terms) slot.post site.wire slot'.post (w.push srv i content site).2.2.wire := by
  have hgathered : (w.gather i content).slots[i]? =
      some { slot with pending := slot.pending ++ [content], stage := .batching } := by
    simp [gather, hi]
  unfold push
  dsimp only
  split
  · obtain ⟨slot', hslot', hdrives⟩ := flush_drives srv false site hgathered
    exact ⟨slot', hslot', hdrives⟩
  · exact ⟨_, hgathered, .of_same rfl rfl rfl⟩

theorem hangUp_drives (srv : Server σ) {i : Nat} (site : Site σ) (hi : w.slots[i]? = some slot) :
    ∃ slot', (w.hangUp srv i site).1.slots[i]? = some slot' ∧ slot'.session = none ∧
      Wire.Drives (Post.step w.terms) slot.post site.wire slot'.post (w.hangUp srv i site).2.wire := by
  unfold hangUp
  split
  · next hnone =>
    exact ⟨slot, hi, by simpa [hi] using hnone, .of_same rfl rfl rfl⟩
  · next session hsession =>
    have hsession : slot.session = some session := by simpa [hi] using hsession
    refine ⟨{ slot with session := none }, by simp [hi], rfl, .of_cons rfl rfl rfl ?_⟩
    simp [Slot.post, hsession, Post.step]

theorem drainSlot_drives (srv : Server σ) {i : Nat} (site : Site σ) (hi : w.slots[i]? = some slot) :
    ∃ slot', (w.drainSlot srv i site).2.1.slots[i]? = some slot' ∧
      (∀ result, (w.drainSlot srv i site).1 = .ok result → slot'.session = none) ∧
      Wire.Drives (Post.step w.terms) slot.post site.wire slot'.post (w.drainSlot srv i site).2.2.wire := by
  have hflush : ∃ slot₁,
      (if w.isBusy i then w.flush srv i true site else (.ok (), w, site)).2.1.slots[i]? = some slot₁ ∧
      Wire.Drives (Post.step w.terms) slot.post site.wire slot₁.post
        (if w.isBusy i then w.flush srv i true site else (.ok (), w, site)).2.2.wire := by
    split
    · exact flush_drives srv true site hi
    · exact ⟨slot, hi, .of_same rfl rfl rfl⟩
  have hterms : (if w.isBusy i then w.flush srv i true site else (.ok (), w, site)).2.1.terms =
      w.terms := by
    split
    · exact (beside_flush srv i true w site).terms
    · rfl
  obtain ⟨slot₁, hslot₁, hdrives⟩ := hflush
  obtain ⟨kind, hd, hresult⟩ | ⟨result, w₁, site₁, hd, he⟩ := drainSlot_cases srv i w site
  · rw [hd] at hslot₁ hdrives
    refine ⟨slot₁, hslot₁, fun result hr => ?_, hdrives⟩
    rw [hresult] at hr
    cases hr
  · rw [hd] at hslot₁ hdrives hterms
    obtain ⟨slot₂, hslot₂, hnone, hclosed⟩ := hangUp_drives srv site₁ hslot₁
    rw [he]
    rw [hterms] at hclosed
    exact ⟨slot₂, hslot₂, fun _ _ => hnone, hdrives.trans hclosed⟩

end Writer

end ForestCourier
