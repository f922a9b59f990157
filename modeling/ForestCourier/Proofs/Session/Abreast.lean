import Mathlib.Data.List.Basic
import Mathlib.Tactic.Common
import ForestCourier.Session.Server

/-!
Two wires side by side. Sessions are numbered across a wire, so requests on two wires are compared without
those numbers. What asks for the same on both is answered the same for as long as the servers agree: two
stretches of requests are `Abreast` if they are the same, or the first answers that differ are answers to
the same request.
-/

namespace ForestCourier

/-- A session without its number, which depends on the sessions that others have opened. -/
def Session.unnumbered (s : Session) : Session := { s with number := 0 }

inductive Ask where
  | accept (session : Session)
  | insert (session : Session) (batch : List Content)
  | commit (session : Session)
  | rollback (session : Session)
  | submit (session : Session) (query : Query)
  | range (session : Session) (query : RangeQuery)
  | next (session : Session)
  | close (session : Session)
  | wait (pause : Duration)

namespace Event

def ask : Event → Ask
  | opened s => .accept s.unnumbered
  | refused target transaction _ => .accept ⟨0, target, transaction⟩
  | inserted s batch _ => .insert s.unnumbered batch
  | committed s _ => .commit s.unnumbered
  | rolledBack s _ => .rollback s.unnumbered
  | submitted s query _ => .submit s.unnumbered query
  | ranged s query _ => .range s.unnumbered query
  | fetched s _ => .next s.unnumbered
  | closed s _ => .close s.unnumbered
  | waited pause => .wait pause

def unnumbered : Event → Event
  | opened s => opened s.unnumbered
  | refused target transaction e => refused target transaction e
  | inserted s batch answer => inserted s.unnumbered batch answer
  | committed s answer => committed s.unnumbered answer
  | rolledBack s answer => rolledBack s.unnumbered answer
  | submitted s query answer => submitted s.unnumbered query answer
  | ranged s query answer => ranged s.unnumbered query answer
  | fetched s answer => fetched s.unnumbered answer
  | closed s answer => closed s.unnumbered answer
  | waited pause => waited pause

theorem ask_unnumbered (e : Event) : e.unnumbered.ask = e.ask := by cases e <;> rfl

end Event

/-- The first difference of two histories is between answers to the same request. -/
def Diverge (h₁ h₂ : List Event) : Prop :=
  ∃ pre e₁ post₁ e₂ post₂, h₁ = pre ++ e₁ :: post₁ ∧ h₂ = pre ++ e₂ :: post₂ ∧ e₁.ask = e₂.ask ∧ e₁ ≠ e₂

namespace Diverge

variable {h₁ h₂ : List Event}

theorem append (h : Diverge h₁ h₂) (x₁ x₂ : List Event) : Diverge (h₁ ++ x₁) (h₂ ++ x₂) := by
  obtain ⟨pre, e₁, post₁, e₂, post₂, rfl, rfl, hask, hne⟩ := h
  exact ⟨pre, e₁, post₁ ++ x₁, e₂, post₂ ++ x₂, by rw [List.append_assoc, List.cons_append],
    by rw [List.append_assoc, List.cons_append], hask, hne⟩

theorem prepend (h : Diverge h₁ h₂) (x : List Event) : Diverge (x ++ h₁) (x ++ h₂) := by
  obtain ⟨pre, e₁, post₁, e₂, post₂, rfl, rfl, hask, hne⟩ := h
  exact ⟨x ++ pre, e₁, post₁, e₂, post₂, by rw [List.append_assoc], by rw [List.append_assoc], hask, hne⟩

end Diverge

theorem map_eq_map_cases {α β : Type} {f : α → β} {x y : Option α} (h : x.map f = y.map f) :
    x = none ∧ y = none ∨ ∃ a b, x = some a ∧ y = some b ∧ f a = f b := by
  cases x with
  | none => exact .inl ⟨rfl, Option.map_eq_none_iff.mp h.symm⟩
  | some a =>
    obtain ⟨b, hb, hsame⟩ := Option.map_eq_some_iff.mp h.symm
    exact .inr ⟨a, b, rfl, hb, hsame.symm⟩

def Concur {ε α : Type} (V : α → α → Prop) : Except ε α → Except ε α → Prop
  | .ok a, .ok b => V a b
  | .error e, .error e' => e = e'
  | _, _ => False

namespace Concur

variable {ε α : Type} {r₁ r₂ : Except ε α}

theorem of_eq (h : r₁ = r₂) : Concur Eq r₁ r₂ := by
  subst h
  cases r₁ <;> rfl

theorem eq (h : Concur Eq r₁ r₂) : r₁ = r₂ := by
  cases r₁ with
  | ok a =>
    cases r₂ with
    | ok b => exact congrArg Except.ok h
    | error e => exact h.elim
  | error e =>
    cases r₂ with
    | ok b => exact h.elim
    | error e' => exact congrArg Except.error h

end Concur

namespace Wire

variable {σ σ₁ σ₂ : Type}

/-- What is added to two wires is the same on both, and then `Q` holds, or it has diverged. -/
def Abreast (Q : Prop) (a₁ b₁ : Wire σ₁) (a₂ b₂ : Wire σ₂) : Prop :=
  ∃ x₁ x₂ : List Event, b₁.trace = x₁.reverse ++ a₁.trace ∧ b₂.trace = x₂.reverse ++ a₂.trace ∧
    (x₁.map Event.unnumbered = x₂.map Event.unnumbered ∧ Q ∨
      Diverge (x₁.map Event.unnumbered) (x₂.map Event.unnumbered))

namespace Abreast

variable {Q Q' : Prop} {a₁ b₁ c₁ : Wire σ₁} {a₂ b₂ c₂ : Wire σ₂}

theorem of_same (h : Q) (h₁ : b₁.trace = a₁.trace) (h₂ : b₂.trace = a₂.trace) : Abreast Q a₁ b₁ a₂ b₂ :=
  ⟨[], [], h₁, h₂, .inl ⟨rfl, h⟩⟩

theorem of_cons {e₁ e₂ : Event} (h₁ : b₁.trace = e₁ :: a₁.trace) (h₂ : b₂.trace = e₂ :: a₂.trace)
    (hask : e₁.ask = e₂.ask) (h : e₁.unnumbered = e₂.unnumbered → Q) : Abreast Q a₁ b₁ a₂ b₂ := by
  refine ⟨[e₁], [e₂], h₁, h₂, ?_⟩
  by_cases hsame : e₁.unnumbered = e₂.unnumbered
  · exact .inl ⟨by rw [List.map_singleton, List.map_singleton, hsame], h hsame⟩
  · refine .inr ⟨[], e₁.unnumbered, [], e₂.unnumbered, [], rfl, rfl, ?_, hsame⟩
    rw [Event.ask_unnumbered, Event.ask_unnumbered, hask]

theorem mono (h : Abreast Q a₁ b₁ a₂ b₂) (hQ : Q → Q') : Abreast Q' a₁ b₁ a₂ b₂ := by
  obtain ⟨x₁, x₂, h₁, h₂, hx⟩ := h
  exact ⟨x₁, x₂, h₁, h₂, hx.imp_left fun hsame => ⟨hsame.1, hQ hsame.2⟩⟩

/-- If the first stretches have diverged, all that matters of the second ones is that they add to them. -/
theorem trans (h : Abreast Q a₁ b₁ a₂ b₂) (h₁ : b₁.trace <:+ c₁.trace) (h₂ : b₂.trace <:+ c₂.trace)
    (h' : Q → Abreast Q' b₁ c₁ b₂ c₂) : Abreast Q' a₁ c₁ a₂ c₂ := by
  obtain ⟨x₁, x₂, hx₁, hx₂, hx⟩ := h
  rcases hx with ⟨hsame, hQ⟩ | hdiverge
  · obtain ⟨y₁, y₂, hy₁, hy₂, hy⟩ := h' hQ
    refine ⟨x₁ ++ y₁, x₂ ++ y₂, ?_, ?_, ?_⟩
    · rw [hy₁, hx₁, List.reverse_append, List.append_assoc]
    · rw [hy₂, hx₂, List.reverse_append, List.append_assoc]
    · rw [List.map_append, List.map_append, hsame]
      exact hy.imp (fun hsame' => ⟨by rw [hsame'.1], hsame'.2⟩) fun hdiverge => hdiverge.prepend _
  · obtain ⟨t₁, ht₁⟩ := h₁
    obtain ⟨t₂, ht₂⟩ := h₂
    refine ⟨x₁ ++ t₁.reverse, x₂ ++ t₂.reverse, ?_, ?_, .inr ?_⟩
    · rw [← ht₁, hx₁, List.reverse_append, List.reverse_reverse, List.append_assoc]
    · rw [← ht₂, hx₂, List.reverse_append, List.reverse_reverse, List.append_assoc]
    · rw [List.map_append, List.map_append]
      exact hdiverge.append _ _

end Abreast

section Requests

variable (srv₁ : Server σ₁) (srv₂ : Server σ₂) (w₁ : Wire σ₁) (w₂ : Wire σ₂)

theorem abreast_openSession (target : Target) (transaction : Transaction) :
    Abreast (Concur (fun a b : Session => a.unnumbered = b.unnumbered)
        (w₁.openSession srv₁ target transaction).1 (w₂.openSession srv₂ target transaction).1)
      w₁ (w₁.openSession srv₁ target transaction).2 w₂ (w₂.openSession srv₂ target transaction).2 := by
  unfold openSession
  dsimp only
  split
  · split
    · exact .of_cons rfl rfl rfl fun _ => rfl
    · refine .of_cons rfl rfl rfl fun hsame => ?_
      cases hsame
  · split
    · refine .of_cons rfl rfl rfl fun hsame => ?_
      cases hsame
    · exact .of_cons rfl rfl rfl fun hsame => (Event.refused.inj hsame).2.2

variable {w₁ w₂} {a b : Session} (hsame : a.unnumbered = b.unnumbered)

include hsame

theorem abreast_insert (docs : List Content) :
    Abreast (Concur Eq (w₁.insert srv₁ a docs).1 (w₂.insert srv₂ b docs).1) w₁ (w₁.insert srv₁ a docs).2 w₂
      (w₂.insert srv₂ b docs).2 :=
  .of_cons rfl rfl (congrArg (Ask.insert · docs) hsame) fun h => .of_eq (Event.inserted.inj h).2.2

theorem abreast_commit :
    Abreast (Concur Eq (w₁.commit srv₁ a).1 (w₂.commit srv₂ b).1) w₁ (w₁.commit srv₁ a).2 w₂
      (w₂.commit srv₂ b).2 :=
  .of_cons rfl rfl (congrArg Ask.commit hsame) fun h => .of_eq (Event.committed.inj h).2

theorem abreast_rollback : Abreast True w₁ (w₁.rollback srv₁ a) w₂ (w₂.rollback srv₂ b) :=
  .of_cons rfl rfl (congrArg Ask.rollback hsame) fun _ => trivial

theorem abreast_close : Abreast True w₁ (w₁.close srv₁ a) w₂ (w₂.close srv₂ b) :=
  .of_cons rfl rfl (congrArg Ask.close hsame) fun _ => trivial

end Requests

end Wire

def Server.Answers {σ : Type} (srv : Server σ) : Event → Prop
  | .opened s => ∃ state, (srv.accept s state).1 = .ok ()
  | .refused target transaction e =>
    ∃ number state, (srv.accept ⟨number, target, transaction⟩ state).1 = .error e
  | .inserted s batch answer => ∃ state, (srv.insert s batch state).1 = answer
  | .committed s answer => ∃ state, (srv.commit s state).1 = answer
  | .rolledBack s answer => ∃ state, (srv.rollback s state).1 = answer
  | .submitted s query answer => ∃ state, (srv.submit s query state).1 = answer
  | .ranged s query answer => ∃ state, (srv.range s query state).1 = answer
  | .fetched s answer => ∃ state, (srv.next s state).1 = answer
  | .closed s answer => ∃ state, (srv.close s state).1 = answer
  | .waited _ => True

/-- A wire to which only answers of the server have been added. -/
def Server.Records {σ : Type} (srv : Server σ) (w w' : Wire σ) : Prop :=
  ∃ x, w'.trace = x ++ w.trace ∧ ∀ e ∈ x, srv.Answers e

namespace Server.Records

variable {σ : Type} {srv : Server σ} {a b c : Wire σ}

theorem of_same (h : b.trace = a.trace) : srv.Records a b := ⟨[], h, List.forall_mem_nil _⟩

theorem of_cons {e : Event} (h : b.trace = e :: a.trace) (he : srv.Answers e) : srv.Records a b :=
  ⟨[e], h, List.forall_mem_singleton.mpr he⟩

theorem trans (h : srv.Records a b) (h' : srv.Records b c) : srv.Records a c := by
  obtain ⟨x, hx, hall⟩ := h
  obtain ⟨y, hy, hall'⟩ := h'
  refine ⟨y ++ x, by rw [hy, hx, List.append_assoc], fun e he => ?_⟩
  exact (List.mem_append.mp he).elim (hall' e) (hall e)

theorem suffix (h : srv.Records a b) : a.trace <:+ b.trace := by
  obtain ⟨x, hx, -⟩ := h
  exact ⟨x, hx.symm⟩

theorem openSession (srv : Server σ) (target : Target) (transaction : Transaction) (w : Wire σ) :
    srv.Records w (w.openSession srv target transaction).2 := by
  unfold Wire.openSession
  dsimp only
  split
  · next h => exact .of_cons rfl ⟨w.state, by rw [h]⟩
  · next h => exact .of_cons rfl ⟨_, w.state, by rw [h]⟩

end Server.Records

end ForestCourier
