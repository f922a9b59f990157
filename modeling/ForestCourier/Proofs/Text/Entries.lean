import ForestCourier.Text.Value

/-!
What blanks and commas a text is read up to. A trimmed text is the text without the blanks at its ends, and the
entries of a list value are those of its parts between commas, so that neither blanks around a part nor parts that are
blank make a difference. An entry is never empty, has no comma, and neither begins nor ends with a blank; a list of
such texts is what its own comma-separated form is read as.
-/

namespace ForestCourier.Text

def IsBlank (s : String) : Prop := ∀ c ∈ s.toList, isBlank c = true

instance (s : String) : Decidable (IsBlank s) := List.decidableBAll _ s.toList

structure IsEntry (s : String) : Prop where
  nonempty : s ≠ ""
  uncut : ',' ∉ s.toList
  head : ∀ c ∈ s.toList.head?, isBlank c = false
  last : ∀ c ∈ s.toList.getLast?, isBlank c = false

instance (s : String) : Decidable (IsEntry s) :=
  -- Both ends are looked at by themselves, not by way of all characters there are.
  let _ : Decidable (∀ c ∈ s.toList.head?, isBlank c = false) := Option.decidableForallMem _
  let _ : Decidable (∀ c ∈ s.toList.getLast?, isBlank c = false) := Option.decidableForallMem _
  decidable_of_iff
    (s ≠ "" ∧ ',' ∉ s.toList ∧ (∀ c ∈ s.toList.head?, isBlank c = false) ∧
      ∀ c ∈ s.toList.getLast?, isBlank c = false)
    ⟨fun ⟨hnonempty, huncut, hhead, hlast⟩ => ⟨hnonempty, huncut, hhead, hlast⟩,
      fun h => ⟨h.nonempty, h.uncut, h.head, h.last⟩⟩

variable {s before after : String}

theorem isBlank_empty : IsBlank "" := List.forall_mem_nil (fun c => isBlank c = true)

theorem IsBlank.uncut (h : IsBlank s) : ',' ∉ s.toList := fun hc => absurd (h ',' hc) (by decide)

section Trim

variable {cs : List Char}

theorem trimmed_append_left {bs : List Char} (h : ∀ c ∈ bs, isBlank c = true) (cs : List Char) :
    trimmed (bs ++ cs) = trimmed cs := by
  rw [trimmed, List.dropWhile_append_of_pos h, trimmed]

theorem trimmed_append_right {bs : List Char} (h : ∀ c ∈ bs, isBlank c = true) (cs : List Char) :
    trimmed (cs ++ bs) = trimmed cs := by
  have hreverse : ∀ c ∈ bs.reverse, isBlank c = true := fun c hc => h c (List.mem_reverse.mp hc)
  rw [trimmed, trimmed, List.dropWhile_append]
  split
  · next hnone =>
    rw [List.isEmpty_iff.mp hnone, ← List.append_nil bs, List.dropWhile_append_of_pos h]
    rfl
  · rw [List.reverse_append, List.dropWhile_append_of_pos hreverse]

theorem exists_trimmed (cs : List Char) :
    ∃ bs as, (∀ c ∈ bs, isBlank c = true) ∧ (∀ c ∈ as, isBlank c = true) ∧ cs = bs ++ trimmed cs ++ as := by
  refine ⟨cs.takeWhile isBlank, ((cs.dropWhile isBlank).reverse.takeWhile isBlank).reverse,
    List.all_eq_true.mp List.all_takeWhile,
    fun c hc => List.all_eq_true.mp List.all_takeWhile c (List.mem_reverse.mp hc), ?_⟩
  rw [trimmed, List.append_assoc, ← List.reverse_append, List.takeWhile_append_dropWhile, List.reverse_reverse,
    List.takeWhile_append_dropWhile]

theorem last_trimmed (cs : List Char) : ∀ c ∈ (trimmed cs).getLast?, isBlank c = false := by
  intro c hc
  have hnot := List.head?_dropWhile_not isBlank (cs.dropWhile isBlank).reverse
  rw [trimmed, List.getLast?_reverse] at hc
  rwa [hc] at hnot

theorem head_trimmed (cs : List Char) : ∀ c ∈ (trimmed cs).head?, isBlank c = false := by
  intro c hc
  have hnot := List.head?_dropWhile_not isBlank cs
  obtain ⟨rest, hrest⟩ : ∃ rest, cs.dropWhile isBlank = trimmed cs ++ rest := by
    refine ⟨((cs.dropWhile isBlank).reverse.takeWhile isBlank).reverse, ?_⟩
    rw [trimmed, ← List.reverse_append, List.takeWhile_append_dropWhile, List.reverse_reverse]
  rw [hrest, List.head?_append, hc] at hnot
  exact hnot

theorem trimmed_of_ends (hhead : ∀ c ∈ cs.head?, isBlank c = false) (hlast : ∀ c ∈ cs.getLast?, isBlank c = false) :
    trimmed cs = cs := by
  have hdrop (xs : List Char) (h : ∀ c ∈ xs.head?, isBlank c = false) : xs.dropWhile isBlank = xs := by
    cases xs with
    | nil => rfl
    | cons x xs => rw [List.dropWhile_cons, h x rfl, if_neg Bool.false_ne_true]
  rw [trimmed, hdrop cs hhead, hdrop cs.reverse (by rwa [List.head?_reverse]), List.reverse_reverse]

theorem trim_pad_left (h : IsBlank before) (s : String) : trim (before ++ s) = trim s := by
  rw [trim, String.toList_append, trimmed_append_left h, trim]

theorem trim_pad_right (h : IsBlank after) (s : String) : trim (s ++ after) = trim s := by
  rw [trim, String.toList_append, trimmed_append_right h, trim]

theorem exists_trim (s : String) :
    ∃ before after, IsBlank before ∧ IsBlank after ∧ s = before ++ trim s ++ after := by
  obtain ⟨bs, as, hbs, has, hcs⟩ := exists_trimmed s.toList
  refine ⟨.ofList bs, .ofList as, ?_, ?_, ?_⟩
  · rwa [IsBlank, String.toList_ofList]
  · rwa [IsBlank, String.toList_ofList]
  · rw [← String.toList_inj, String.toList_append, String.toList_append, trim, String.toList_ofList,
      String.toList_ofList, String.toList_ofList]
    exact hcs

theorem trim_of_isBlank (h : IsBlank s) : trim s = "" := by
  rw [← String.append_empty (s := s), trim_pad_left h]
  rfl

theorem trim_eq_empty_iff : trim s = "" ↔ IsBlank s := by
  refine ⟨fun h => ?_, trim_of_isBlank⟩
  obtain ⟨before, after, hbefore, hafter, hs⟩ := exists_trim s
  rw [hs, h, String.append_empty, IsBlank, String.toList_append]
  exact List.forall_mem_append.mpr ⟨hbefore, hafter⟩

theorem IsEntry.trim (h : IsEntry s) : trim s = s := by
  rw [Text.trim, trimmed_of_ends h.head h.last, String.ofList_toList]

end Trim

theorem comma_induction {P : String → Prop} (one : ∀ s, ',' ∉ s.toList → P s)
    (more : ∀ s t, ',' ∉ s.toList → P t → P (s ++ "," ++ t)) (s : String) : P s := by
  induction h : s.toList.length using Nat.strongRecOn generalizing s with
  | ind n ih =>
    by_cases hcomma : ',' ∈ s.toList
    · obtain ⟨as, bs, hs, has⟩ := List.eq_append_cons_of_mem hcomma
      have hlength : bs.length < n := by
        rw [← h, hs, List.length_append, List.length_cons]
        omega
      have hparts : s = .ofList as ++ "," ++ .ofList bs := by
        rw [← String.toList_inj, hs]
        simp
      rw [hparts]
      exact more _ _ (by rwa [String.toList_ofList]) (ih _ hlength _ (by rw [String.toList_ofList]))
    · exact one s hcomma

theorem entries_append (s t : String) : entries (s ++ "," ++ t) = entries s ++ entries t := by
  have hcut : (s ++ "," ++ t).toList = s.toList ++ ',' :: t.toList := by simp
  rw [entries, hcut, List.splitOn_append_cons_self, List.map_append, List.filter_append]
  rfl

theorem entries_of_uncut (h : ',' ∉ s.toList) : entries s = if trim s = "" then [] else [trim s] := by
  rw [entries, List.splitOn_eq_singleton h, List.map_singleton, ← trim]
  by_cases hblank : trim s = ""
  · simp [hblank]
  · simp [hblank]

theorem entries_of_isBlank (h : IsBlank s) : entries s = [] := by
  rw [entries_of_uncut h.uncut, if_pos (trim_of_isBlank h)]

theorem entries_of_isEntry (h : IsEntry s) : entries s = [s] := by
  rw [entries_of_uncut h.uncut, h.trim, if_neg h.nonempty]

theorem entries_intercalate (xs : List String) : entries (String.intercalate "," xs) = xs.flatMap entries := by
  induction xs with
  | nil => rfl
  | cons x xs ih =>
    cases xs with
    | nil => rw [List.flatMap_singleton, String.intercalate_singleton]
    | cons y ys => rw [String.intercalate_cons_cons, entries_append, ih, List.flatMap_cons (x := x)]

theorem entries_intercalate_of_isEntry {xs : List String} (h : ∀ x ∈ xs, IsEntry x) :
    entries (String.intercalate "," xs) = xs := by
  rw [entries_intercalate]
  induction xs with
  | nil => rfl
  | cons x xs ih =>
    obtain ⟨hx, hxs⟩ := List.forall_mem_cons.mp h
    rw [List.flatMap_cons, entries_of_isEntry hx, ih hxs, List.singleton_append]

theorem entries_pad_left (h : IsBlank before) (s : String) : entries (before ++ s) = entries s := by
  have hpart (s : String) (hs : ',' ∉ s.toList) : entries (before ++ s) = entries s := by
    have hpadded : ',' ∉ (before ++ s).toList := by simp [h.uncut, hs]
    rw [entries_of_uncut hpadded, entries_of_uncut hs, trim_pad_left h]
  induction s using comma_induction with
  | one s hs => exact hpart s hs
  | more s t hs _ => rw [← String.append_assoc, ← String.append_assoc, entries_append, hpart s hs, entries_append]

theorem entries_pad_right (h : IsBlank after) (s : String) : entries (s ++ after) = entries s := by
  induction s using comma_induction with
  | one s hs =>
    have hpadded : ',' ∉ (s ++ after).toList := by simp [h.uncut, hs]
    rw [entries_of_uncut hpadded, entries_of_uncut hs, trim_pad_right h]
  | more s t _ ih => rw [String.append_assoc, entries_append, ih, entries_append]

theorem entries_trim (s : String) : entries (trim s) = entries s := by
  obtain ⟨before, after, hbefore, hafter, hs⟩ := exists_trim s
  have hpadded := entries_pad_right hafter (before ++ trim s)
  rw [entries_pad_left hbefore, ← hs] at hpadded
  exact hpadded.symm

theorem isEntry_trim (hs : ',' ∉ s.toList) (hne : trim s ≠ "") : IsEntry (trim s) := by
  have hlist : (trim s).toList = trimmed s.toList := String.toList_ofList
  obtain ⟨bs, as, -, -, hcs⟩ := exists_trimmed s.toList
  refine ⟨hne, fun hcomma => hs ?_, ?_, ?_⟩
  · rw [hcs, ← hlist]
    exact List.mem_append_left _ (List.mem_append_right _ hcomma)
  · rw [hlist]
    exact head_trimmed _
  · rw [hlist]
    exact last_trimmed _

theorem isEntry_of_mem_entries (s : String) : ∀ x ∈ entries s, IsEntry x := by
  have hpart (s : String) (hs : ',' ∉ s.toList) : ∀ x ∈ entries s, IsEntry x := by
    rw [entries_of_uncut hs]
    split
    · exact List.forall_mem_nil _
    · next hne => exact List.forall_mem_singleton.mpr (isEntry_trim hs hne)
  induction s using comma_induction with
  | one s hs => exact hpart s hs
  | more s t hs ih =>
    rw [entries_append]
    exact List.forall_mem_append.mpr ⟨hpart s hs, ih⟩

theorem toLower_of_isBlank {c : Char} (h : isBlank c = true) : c.toLower = c := by
  refine dif_neg fun ⟨hfrom, hto⟩ => ?_
  have hfrom : 65 ≤ c.toNat := UInt32.le_iff_toNat_le.mp hfrom
  have hto : c.toNat ≤ 90 := UInt32.le_iff_toNat_le.mp hto
  simp only [isBlank, Bool.or_eq_true, Bool.and_eq_true, decide_eq_true_eq, beq_iff_eq] at h
  omega

theorem not_isBlank_of_toLower {c : Char} (h : isBlank c.toLower = false) : isBlank c = false := by
  cases hblank : isBlank c with
  | false => rfl
  | true => rwa [toLower_of_isBlank hblank, hblank] at h

/-- Whether a text can stand in a list does not hang on its letter case. -/
theorem IsEntry.of_lower (h : IsEntry (lower s)) : IsEntry s := by
  have hlist : (lower s).toList = s.toList.map Char.toLower := String.toList_map
  refine ⟨fun hs => h.nonempty ?_, fun hcomma => h.uncut ?_, fun c hc => ?_, fun c hc => ?_⟩
  · rw [← String.toList_eq_nil_iff, hlist, hs]
    rfl
  · rw [hlist]
    exact List.mem_map_of_mem hcomma
  · refine not_isBlank_of_toLower (h.head _ ?_)
    rw [hlist, List.head?_map, hc]
    rfl
  · refine not_isBlank_of_toLower (h.last _ ?_)
    rw [hlist, List.getLast?_map, hc]
    rfl

end ForestCourier.Text
