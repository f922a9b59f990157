import ForestCourier.Reader.Basic

/-!
What holds of every step of failing over holds of failing over as a whole, however often it has to
move on. The steps are those between one stream and the next: the old session is released, the reader
turns to another place, waits and connects there, and resumes.
-/

namespace ForestCourier.Reader

variable {σ : Type}

structure Steps (srv : Server σ) (split : Split) (R : Reader × Wire σ → Reader × Wire σ → Prop) :
    Prop where
  refl : ∀ x, R x x
  trans : ∀ {a b c}, R a b → R b c → R a c
  note : ∀ n r w, R (r, w) (r, w.note n)
  wait : ∀ pause r w, R (r, w) (r, w.wait srv pause)
  count : ∀ failures failovers r w,
    R (r, w) ({ r with failures := failures, failovers := failovers }, w)
  turn : ∀ cursor r w, r.cursor = some cursor → R (r, w) ({ r with cursor := some cursor.advance }, w)
  release : ∀ r w, R (r, w) (r.release srv w)
  connect : ∀ r w, R (r, w) (r.connect srv split w).2

namespace Steps

variable {srv : Server σ} {split : Split} {R : Reader × Wire σ → Reader × Wire σ → Prop}

theorem give_up (h : Steps srv split R) (n : Notice) (r : Reader) (w : Wire σ) :
    R (r, w) (r.release srv (w.note n)) :=
  h.trans (h.note n r w) (h.release r _)

theorem move (h : Steps srv split R) {r r₁ r₂ : Reader} {cursor : ReplicaCursor}
    (hcursor : r.cursor = some cursor) {failures failovers : Nat} {w w₁ w₂ : Wire σ}
    (hrelease : Reader.release srv { r with cursor := some cursor.advance, failures := failures } w =
      (r₁, w₁)) {n : Notice} {pause : Duration} {answer : Except (Fault RequestError) Unit}
    (hconnect : Reader.connect srv split { r₁ with failovers := failovers }
      ((w₁.note n).wait srv pause) = (answer, r₂, w₂)) :
    R (r, w) (r₂, w₂) := by
  have hturned := h.trans (h.turn cursor r w hcursor) (h.count failures r.failovers _ w)
  have hreleased := h.release { r with cursor := some cursor.advance, failures := failures } w
  rw [hrelease] at hreleased
  have hnoted := h.trans (h.trans hturned hreleased) (h.note n r₁ w₁)
  have hwaited := h.trans hnoted (h.wait pause r₁ _)
  have hcounted := h.trans hwaited (h.count r₁.failures failovers r₁ _)
  have hconnected := h.connect { r₁ with failovers := failovers } ((w₁.note n).wait srv pause)
  rw [hconnect] at hconnected
  exact h.trans hcounted hconnected

theorem recover (h : Steps srv split R) {α : Type}
    {resume : Reader → Wire σ → Except RequestError α × Reader × Wire σ}
    (hresume : ∀ r w, R (r, w) (resume r w).2) (left : Nat) (e : RequestError) (r : Reader)
    (w : Wire σ) :
    R (r, w) (Reader.recover srv split resume left e r w).2 := by
  fun_induction Reader.recover srv split resume left e r w with
  | case1 left e r w => exact h.give_up _ r w
  | case2 e r w =>
    exact h.trans (h.count (r.failures + 1) r.failovers r w) (h.give_up _ _ w)
  | case3 e r w _ cursor left hcursor next failures pause r₁ w₁ hrelease w₂ kind r₂ w₃ hconnect =>
    exact h.move hcursor hrelease hconnect
  | case4 e r w _ cursor left hcursor next failures pause r₁ w₁ hrelease w₂ e₁ r₂ w₃ hconnect ih =>
    exact h.trans (h.move hcursor hrelease hconnect) ih
  | case5 e r w _ cursor left hcursor next failures pause r₁ w₁ hrelease w₂ r₂ w₃ hconnect a r₃ w₄
      hresumed =>
    have hlast := hresume r₂ w₃
    rw [hresumed] at hlast
    exact h.trans (h.move hcursor hrelease hconnect) hlast
  | case6 e r w _ cursor left hcursor next failures pause r₁ w₁ hrelease w₂ r₂ w₃ hconnect e₁ r₃ w₄
      hresumed ih =>
    have hlast := hresume r₂ w₃
    rw [hresumed] at hlast
    exact h.trans (h.trans (h.move hcursor hrelease hconnect) hlast) ih
  | case7 left e r w => exact h.give_up _ r w

end Steps

end ForestCourier.Reader
