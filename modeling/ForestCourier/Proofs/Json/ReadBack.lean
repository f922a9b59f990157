import Mathlib.Data.List.Basic
import Mathlib.Tactic.Common
import ForestCourier.Json.Parser
import ForestCourier.Json.Printer

/-!
What is written is read back. A value is `Plain` if every string in it has a text, every whole number
has a 64-bit form and it holds no other number; the text of such a value is read as the value itself,
by the reader of one value and, since nothing is left behind it, by `parse`. What stands behind a
value inside a text is the comma before the next one or the bracket that closes the last, which is
what a number has to be told apart from.
-/

namespace ForestCourier.Json

inductive Plain : Json → Prop
  | null : Plain .null
  | bool (b : Bool) : Plain (.bool b)
  | int {n : Int} (low : -(UInt64.size / 2 : Nat) ≤ n) (high : n < UInt64.size) : Plain (.int n)
  | string (s : String) : Plain (.string (some s))
  | array {items : List Json} (plain : ∀ j ∈ items, Plain j) : Plain (.array items)
  | object {members : List (Option String × Json)} (named : ∀ m ∈ members, m.1.isSome)
      (plain : ∀ m ∈ members, Plain m.2) : Plain (.object members)

theorem Plain.ofText (s : String) : (ofText s).Plain := .string s

theorem Plain.ofNat {n : Nat} (h : n < UInt64.size) : (ofNat n).Plain :=
  .int (by omega) (by omega)

theorem Plain.ofList {α : Type} {f : α → Json} (h : ∀ a, (f a).Plain) (xs : List α) :
    (ofList f xs).Plain := by
  refine .array fun j hj => ?_
  obtain ⟨a, -, rfl⟩ := List.mem_map.mp hj
  exact h a

theorem Plain.ofOption {α : Type} {f : α → Json} (h : ∀ a, (f a).Plain) (x : Option α) :
    (ofOption f x).Plain := by
  cases x with
  | none => exact .null
  | some a => exact h a

theorem Plain.ofMembers {members : List (String × Json)} (h : ∀ m ∈ members, m.2.Plain) :
    (ofMembers members).Plain := by
  refine .object (fun m hm => ?_) fun m hm => ?_ <;>
    obtain ⟨n, hn, rfl⟩ := List.mem_map.mp hm
  · rfl
  · exact h n hn

/-! Strings: the pieces of an escaped character stand for the character. -/

theorem code?_control {n : Nat} (h : n < 0x20) :
    code? '0' '0' (hexDigit (n / 16)) (hexDigit (n % 16)) = some n := by
  revert n
  decide

theorem pieces_plain {c : Char} (h : ¬ c.toNat < 0x20) (hq : c ≠ '"') (hb : c ≠ '\\')
    (cs : List Char) :
    pieces (c :: cs) = (pieces cs).map fun p => (.plain c :: p.1, p.2) := by
  rw [pieces]
  · simp only [h, hb, or_self, if_false]
    cases pieces cs <;> rfl
  all_goals simp_all

theorem escaped_cases (c : Char) :
    (∃ e, e ≠ 'u' ∧ shortEscape? e = some c ∧ escaped c = ['\\', e]) ∨
      (c.toNat < 0x20 ∧
        escaped c = ['\\', 'u', '0', '0', hexDigit (c.toNat / 16), hexDigit (c.toNat % 16)]) ∨
      (¬ c.toNat < 0x20 ∧ c ≠ '"' ∧ c ≠ '\\' ∧ escaped c = [c]) := by
  unfold escaped
  split_ifs with hq hb _ _ _ _ _ hlow
  rotate_right 2
  · exact .inr (.inl ⟨hlow, rfl⟩)
  · exact .inr (.inr ⟨hlow, hq, hb, rfl⟩)
  all_goals
    subst c
    exact .inl ⟨_, by decide, rfl, rfl⟩

theorem join_code {n : Nat} (h : n < 0xd800) (ps : List Piece) :
    join (.code n :: ps) = (join ps).map (Char.ofNat n :: ·) := by
  cases ps with
  | nil => simp [join, h]
  | cons p ps => cases p <;> simp [join, h]

theorem pieces_escaped (c : Char) {ps : List Piece} {s cs rest : List Char}
    (hp : pieces cs = some (ps, rest)) (hj : join ps = some s) :
    ∃ p, pieces (escaped c ++ cs) = some (p :: ps, rest) ∧ join (p :: ps) = some (c :: s) := by
  rcases escaped_cases c with ⟨e, hu, he, h⟩ | ⟨hlow, h⟩ | ⟨hlow, hq, hb, h⟩
  · refine ⟨.plain c, ?_, by simp [join, hj]⟩
    rw [h, List.cons_append, List.singleton_append, pieces]
    · simp [he, hp]
    · exact fun _ _ _ _ _ h => absurd h hu
  · refine ⟨.code c.toNat, by simp [h, pieces, code?_control hlow, hp], ?_⟩
    simp [join_code (show c.toNat < 0xd800 by omega), hj]
  · exact ⟨.plain c, by simp [h, pieces_plain hlow hq hb, hp], by simp [join, hj]⟩

theorem optionalText_some (s : String) :
    optionalText (some s) = '"' :: (s.toList.flatMap escaped ++ ['"']) := rfl

theorem readString_text (s : String) (rest : List Char) :
    readString (s.toList.flatMap escaped ++ '"' :: rest) = some (some s, rest) := by
  have h : ∀ t : List Char, ∃ ps,
      pieces (t.flatMap escaped ++ '"' :: rest) = some (ps, rest) ∧ join ps = some t := by
    intro t
    induction t with
    | nil => exact ⟨[], by simp [pieces], rfl⟩
    | cons c t ih =>
      obtain ⟨ps, hp, hj⟩ := ih
      obtain ⟨p, hp, hj⟩ := pieces_escaped c hp hj
      exact ⟨p :: ps, by simpa using hp, hj⟩
  obtain ⟨ps, hp, hj⟩ := h s.toList
  simp [readString, hp, hj]

/-! Numbers: the digits are all there are, and only zero begins with a zero. -/

def Ends (cs : List Char) : Prop := ∀ c ∈ cs.head?, c = ',' ∨ c = ']' ∨ c = '\x7d'

theorem ends_nil : Ends [] := by simp [Ends]

theorem ends_cons {c : Char} (h : c = ',' ∨ c = ']' ∨ c = '\x7d') (cs : List Char) :
    Ends (c :: cs) := by
  simpa [Ends] using h

theorem isDigit_of_mem_toDigits {n : Nat} {c : Char} (h : c ∈ Nat.toDigits 10 n) :
    isDigit c = true :=
  Nat.isDigit_of_mem_toDigits (by decide) (by decide) h

theorem natOfDigits_toDigits (n : Nat) : natOfDigits (Nat.toDigits 10 n) = n := by
  have h := Nat.ofDigitChars_toDigits (b := 10) (n := n) (by decide) (by decide)
  rwa [Nat.ofDigitChars_eq_foldl] at h

theorem head_toDigits {n : Nat} (h : 0 < n) : (Nat.toDigits 10 n).head? ≠ some '0' := by
  induction n using Nat.strongRecOn with
  | _ n ih =>
    by_cases hn : n < 10
    · rw [Nat.toDigits_of_lt_base hn]
      have hdigit : ∀ m < 10, 0 < m → [Nat.digitChar m].head? ≠ some '0' := by decide
      exact hdigit n hn h
    · rw [Nat.toDigits_of_base_le (by decide) (by omega), List.head?_append_of_ne_nil _
        Nat.toDigits_ne_nil]
      exact ih (n / 10) (by omega) (by omega)

theorem readMagnitude_toDigits (negative : Bool) (n : Nat) {rest : List Char} (h : Ends rest) :
    readMagnitude negative (Nat.toDigits 10 n ++ rest) =
      some (ofDigits negative (Nat.toDigits 10 n) [] none, rest) := by
  have hall : ∀ c ∈ Nat.toDigits 10 n, isDigit c = true := fun _ => isDigit_of_mem_toDigits
  have hrest : rest.takeWhile isDigit = [] ∧ rest.dropWhile isDigit = rest ∧
      readFraction rest = some ([], rest) ∧ readExponent rest = some (none, rest) := by
    cases rest with
    | nil => simp [readFraction, readExponent]
    | cons c cs => rcases h c rfl with rfl | rfl | rfl <;> simp [isDigit, readFraction, readExponent]
  obtain ⟨htake, hdrop, hfraction, hexponent⟩ := hrest
  have hzero : ((Nat.toDigits 10 n).head? == some '0' && (Nat.toDigits 10 n).length != 1) = false := by
    by_cases hn : 0 < n
    · simp [head_toDigits hn]
    · obtain rfl : n = 0 := by omega
      rfl
  simp only [readMagnitude, List.takeWhile_append_of_pos hall, List.dropWhile_append_of_pos hall,
    htake, hdrop, List.append_nil, hzero]
  simp [hfraction, hexponent, Nat.toDigits_ne_nil]

theorem intText_cons (n : Int) :
    ∃ c t, intText n = c :: t ∧ (c = '-' ∨ isDigit c = true) := by
  unfold intText
  split
  · exact ⟨_, _, rfl, .inl rfl⟩
  · obtain ⟨c, t, h⟩ := List.exists_cons_of_ne_nil (Nat.toDigits_ne_nil (n := n.natAbs) (b := 10))
    exact ⟨c, t, h, .inr (isDigit_of_mem_toDigits (n := n.natAbs) (by simp [h]))⟩

theorem readNumber_intText {n : Int} (low : -(UInt64.size / 2 : Nat) ≤ n) (high : n < UInt64.size)
    {rest : List Char} (h : Ends rest) :
    readNumber (intText n ++ rest) = some (.int n, rest) := by
  unfold intText
  split
  · next hn =>
    rw [List.cons_append, readNumber, readMagnitude_toDigits true _ h]
    have : 0 < n.natAbs ∧ n.natAbs ≤ UInt64.size / 2 := by omega
    have hv : -(n.natAbs : Int) = n := by omega
    simp only [ofDigits, natOfDigits_toDigits, List.isEmpty_nil, Option.isNone_none, Bool.and_self, if_true,
      if_pos this, hv]
  · next hn =>
    have hv : (n.natAbs : Int) = n := by omega
    have : n.natAbs < UInt64.size := by omega
    rw [readNumber, readMagnitude_toDigits false _ h]
    · simp only [ofDigits, natOfDigits_toDigits, List.isEmpty_nil, Option.isNone_none, Bool.and_self, if_true,
        Bool.false_eq_true, if_false, if_pos this, hv]
    · intro cs hcs
      obtain ⟨t, ht, -⟩ := List.append_eq_cons_iff.mp hcs |>.resolve_left (by simp [Nat.toDigits_ne_nil])
      have := isDigit_of_mem_toDigits (n := n.natAbs) (c := '-') (by simp [ht])
      exact absurd this (by decide)

/-! Values. -/

def ReadsBack (j : Json) : Prop :=
  ∀ fuel rest, 2 * j.text.length ≤ fuel → Ends rest → readValue fuel (j.text ++ rest) = some (j, rest)

def Begins (cs : List Char) : Prop := ∃ c t, cs = c :: t ∧ isSpace c = false ∧ c ≠ ']'

theorem Begins.skip {cs : List Char} (h : Begins cs) : skip cs = cs := by
  obtain ⟨c, t, rfl, hc, -⟩ := h
  simp [Json.skip, hc]

theorem Begins.append {cs : List Char} (h : Begins cs) (rest : List Char) :
    Begins (cs ++ rest) := by
  obtain ⟨c, t, rfl, hc⟩ := h
  exact ⟨c, t ++ rest, rfl, hc⟩

theorem begins_intText (n : Int) : Begins (intText n) := by
  obtain ⟨c, t, h, hc⟩ := intText_cons n
  refine ⟨c, t, h, ?_, ?_⟩
  · rcases hc with rfl | hc
    · rfl
    · simp only [isSpace, Bool.or_eq_false_iff, beq_eq_false_iff_ne]
      refine ⟨⟨⟨?_, ?_⟩, ?_⟩, ?_⟩ <;> (rintro rfl; exact absurd hc (by decide))
  · rintro rfl
    rcases hc with hc | hc <;> exact absurd hc (by decide)

theorem Plain.begins {j : Json} (h : j.Plain) : Begins j.text := by
  cases h with
  | null => exact ⟨_, _, rfl, by decide, by decide⟩
  | bool b => cases b <;> exact ⟨_, _, rfl, by decide, by decide⟩
  | int => exact begins_intText _
  | string => exact ⟨_, _, rfl, by decide, by decide⟩
  | array => exact ⟨_, _, rfl, by decide, by decide⟩
  | object => exact ⟨_, _, rfl, by decide, by decide⟩

theorem begins_itemsText {j : Json} (h : Begins j.text) (js : List Json) :
    Begins (itemsText (j :: js)) := by
  cases js with
  | nil => exact h
  | cons k js => exact h.append _

theorem membersText_cons (m : Option String × Json) (h : m.1.isSome)
    (ms : List (Option String × Json)) : ∃ t, membersText (m :: ms) = '"' :: t := by
  obtain ⟨key, j⟩ := m
  obtain ⟨key, rfl⟩ := Option.isSome_iff_exists.mp h
  cases ms <;> exact ⟨_, rfl⟩

theorem readItems_text {items : List Json} (hne : items ≠ [])
    (hplain : ∀ j ∈ items, j.ReadsBack) {fuel : Nat} (rest : List Char)
    (hfuel : 2 * (itemsText items).length + 1 ≤ fuel) :
    readItems fuel (itemsText items ++ ']' :: rest) = some (items, rest) := by
  induction items generalizing fuel with
  | nil => exact absurd rfl hne
  | cons j js ih =>
    obtain ⟨fuel, rfl⟩ : ∃ n, fuel = n + 1 := ⟨fuel - 1, by omega⟩
    have hj := hplain j List.mem_cons_self
    cases js with
    | nil =>
      simp only [itemsText] at hfuel ⊢
      rw [readItems, hj fuel _ (by omega) (ends_cons (by simp) _)]
      simp [skip, isSpace]
    | cons k js =>
      simp only [itemsText, List.length_append, List.length_cons, List.append_assoc,
        List.cons_append] at hfuel ⊢
      rw [readItems, hj fuel _ (by omega) (ends_cons (by simp) _)]
      have hjs : readItems fuel (itemsText (k :: js) ++ ']' :: rest) = some (k :: js, rest) :=
        ih (by simp) (fun x hx => hplain x (List.mem_cons_of_mem _ hx)) (by omega)
      simp [skip, isSpace, hjs]

theorem readMembers_text {members : List (Option String × Json)} (hne : members ≠ [])
    (hnamed : ∀ m ∈ members, m.1.isSome) (hplain : ∀ m ∈ members, m.2.ReadsBack) {fuel : Nat}
    (rest : List Char) (hfuel : 2 * (membersText members).length + 1 ≤ fuel) :
    readMembers fuel (membersText members ++ '\x7d' :: rest) = some (members, rest) := by
  induction members generalizing fuel with
  | nil => exact absurd rfl hne
  | cons m ms ih =>
    obtain ⟨key, j⟩ := m
    obtain ⟨key, rfl⟩ := Option.isSome_iff_exists.mp (hnamed _ List.mem_cons_self)
    obtain ⟨fuel, rfl⟩ : ∃ n, fuel = n + 1 := ⟨fuel - 1, by omega⟩
    have hj : j.ReadsBack := hplain _ List.mem_cons_self
    cases ms with
    | nil =>
      simp only [membersText, optionalText_some, List.length_append, List.length_cons,
        List.append_assoc, List.cons_append, List.nil_append] at hfuel ⊢
      have hval := hj fuel ('\x7d' :: rest) (by omega) (ends_cons (by simp) _)
      simp [readMembers, skip, isSpace, readString_text, hval]
    | cons m ms =>
      simp only [membersText, optionalText_some, List.length_append, List.length_cons,
        List.append_assoc, List.cons_append, List.nil_append] at hfuel ⊢
      have hval := hj fuel (',' :: (membersText (m :: ms) ++ '\x7d' :: rest)) (by omega)
        (ends_cons (by simp) _)
      have hms : readMembers fuel (membersText (m :: ms) ++ '\x7d' :: rest) = some (m :: ms, rest) :=
        ih (by simp) (fun x hx => hnamed x (List.mem_cons_of_mem _ hx))
          (fun x hx => hplain x (List.mem_cons_of_mem _ hx)) (by omega)
      simp [readMembers, skip, isSpace, readString_text, hval, hms]

theorem readValue_number (fuel : Nat) {c : Char} (h : c = '-' ∨ isDigit c = true)
    (cs : List Char) (hskip : skip (c :: cs) = c :: cs) :
    readValue (fuel + 1) (c :: cs) = readNumber (c :: cs) := by
  rw [readValue, hskip]
  split
  case h_7 => rfl
  all_goals
    rename_i heq
    obtain ⟨rfl, -⟩ := List.cons.inj heq
    rcases h with h | h <;> exact absurd h (by decide)

theorem readValue_array (fuel : Nat) {cs : List Char} (h : Begins cs) :
    readValue (fuel + 1) ('[' :: cs) = (readItems fuel cs).map fun p => (.array p.1, p.2) := by
  obtain ⟨c, t, hcs, -, hne⟩ := id h
  have hskip : skip ('[' :: cs) = '[' :: cs := rfl
  rw [readValue, hskip]
  simp only [h.skip]
  subst hcs
  split
  · simp_all
  · rfl

theorem readValue_object (fuel : Nat) (cs : List Char) :
    readValue (fuel + 1) ('\x7b' :: '"' :: cs) =
      (readMembers fuel ('"' :: cs)).map fun p => (.object p.1, p.2) := by
  simp [readValue, skip, isSpace]

theorem Plain.readsBack {j : Json} (h : j.Plain) : j.ReadsBack := by
  induction h with
  | null =>
    rintro (_ | fuel) rest hfuel -
    · simp [text] at hfuel
    · simp [text, readValue, skip, isSpace]
  | bool b =>
    rintro (_ | fuel) rest hfuel -
    · cases b <;> simp [text] at hfuel
    · cases b <;> simp [text, readValue, skip, isSpace]
  | @int n low high =>
    rintro (_ | fuel) rest hfuel hends
    · obtain ⟨c, t, h, -⟩ := intText_cons n
      simp [text, h] at hfuel
    · obtain ⟨c, t, h, hc⟩ := intText_cons n
      have hskip := ((begins_intText n).append rest).skip
      have hread := readNumber_intText low high hends
      rw [text]
      rw [h, List.cons_append] at hskip hread ⊢
      rw [readValue_number fuel hc _ hskip, hread]
  | string s =>
    rintro (_ | fuel) rest hfuel -
    · simp [text, optionalText_some] at hfuel
    · simp [text, optionalText_some, readValue, skip, isSpace, readString_text]
  | @array items h ih =>
    rintro (_ | fuel) rest hfuel -
    · simp [text] at hfuel
    · cases items with
      | nil => simp [text, itemsText, readValue, skip, isSpace]
      | cons j js =>
        simp only [text, List.length_append, List.length_cons] at hfuel
        have hbegins := begins_itemsText (h j List.mem_cons_self).begins js
        simp only [text, List.cons_append, List.append_assoc, List.nil_append]
        rw [readValue_array fuel (hbegins.append _), readItems_text (by simp) ih _ (by omega)]
        rfl
  | @object members hn h ih =>
    rintro (_ | fuel) rest hfuel -
    · simp [text] at hfuel
    · cases members with
      | nil => simp [text, membersText, readValue, skip, isSpace]
      | cons m ms =>
        simp only [text, List.length_append, List.length_cons] at hfuel
        have hread : readMembers fuel (membersText (m :: ms) ++ '\x7d' :: rest) =
            some (m :: ms, rest) := readMembers_text (by simp) hn ih rest (by omega)
        obtain ⟨t, ht⟩ := membersText_cons m (hn m List.mem_cons_self) ms
        simp only [text, List.cons_append, List.append_assoc, List.nil_append]
        rw [ht, List.cons_append] at hread ⊢
        rw [readValue_object, hread]
        rfl

theorem Plain.parse_print {j : Json} (h : j.Plain) : parse j.print = some j := by
  have hread := h.readsBack (2 * j.text.length + 2) [] (by omega) ends_nil
  rw [List.append_nil] at hread
  simp [parse, print, hread, skip]

end ForestCourier.Json
