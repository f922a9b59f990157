import Mathlib.Data.List.Induction
import Mathlib.Data.List.Nodup
import ForestCourier.Session.Answer

/-!
The forms that answers are written in. A form says which items stand for a value. A reader is exact for a form
if it takes such items, and no others, off the front of an answer, whatever stands behind them. Readers one
after the other are exact for their forms one behind the other, and a section is a row of its entries up to
where it ends. Groups of replicas have such a form, and giving them out leaves each forest with the last one.
-/

namespace ForestCourier

theorem bind_eq_ok {ε α β : Type} {x : Except ε α} {f : α → Except ε β} {b : β} :
    x >>= f = .ok b ↔ ∃ a, x = .ok a ∧ f a = .ok b := by
  cases x with
  | error e => exact ⟨nofun, fun ⟨_, h, _⟩ => nomatch h⟩
  | ok a => exact ⟨fun h => ⟨a, rfl, h⟩, fun ⟨_, ha, h⟩ => by cases ha; exact h⟩

theorem mapError_eq_ok {ε ε' α : Type} {x : Except ε α} {f : ε → ε'} {a : α} :
    x.mapError f = .ok a ↔ x = .ok a := by
  cases x with
  | error e => exact ⟨nofun, nofun⟩
  | ok b => simp [Except.mapError]

theorem bind_eq_error {ε α β : Type} {x : Except ε α} {f : α → Except ε β} {e : ε} :
    x >>= f = .error e ↔ x = .error e ∨ ∃ a, x = .ok a ∧ f a = .error e := by
  cases x with
  | error e' => simp [bind, Except.bind]
  | ok a => simp [bind, Except.bind]

theorem mapError_eq_error {ε ε' α : Type} {x : Except ε α} {f : ε → ε'} {e' : ε'} :
    x.mapError f = .error e' ↔ ∃ e, x = .error e ∧ f e = e' := by
  cases x with
  | error e => simp [Except.mapError]
  | ok a => simp [Except.mapError]

theorem map_eq_ok {ε α β : Type} {x : Except ε α} {f : α → β} {b : β} :
    x.map f = .ok b ↔ ∃ a, x = .ok a ∧ f a = b := by
  cases x with
  | error e => exact ⟨nofun, fun ⟨_, h, _⟩ => nomatch h⟩
  | ok a => simp [Except.map]

/-- An item names a forest by its text, or by a number that is none below zero. -/
inductive Item.Names : Item → ForestId → Prop
  | text (s : String) : Names (.text s) ⟨s⟩
  | number (n : Int64) : 0 ≤ n.toInt → Names (.int n) (.ofNat n.toInt.toNat)

namespace Answer

variable {α β : Type}

abbrev Form (α : Type) := α → List Item → Prop

/-- The reader takes the items of a form, and no others, off the front of an answer. -/
def Exact (read : Reads α) (form : Form α) : Prop :=
  ∀ items position x a, read ⟨items, position⟩ = .ok (x, a) ↔
    ∃ taken, form x taken ∧ items = taken ++ a.rest ∧ a.position = position + taken.length

theorem exact_pure (x : α) : Exact (fun a => .ok (x, a)) fun y items => y = x ∧ items = [] := by
  intro items position y a
  obtain ⟨rest, position'⟩ := a
  constructor
  · intro h
    cases h
    exact ⟨[], ⟨rfl, rfl⟩, rfl, rfl⟩
  · rintro ⟨_, ⟨rfl, rfl⟩, rfl, rfl⟩
    rfl

theorem Exact.bind {read : Reads α} {next : α → Reads β} {form : Form α} {form' : α → Form β}
    (h : Exact read form) (h' : ∀ x, Exact (next x) (form' x)) :
    Exact (fun a => do let (x, a) ← read a; next x a) fun y items =>
      ∃ x first second, form x first ∧ form' x y second ∧ items = first ++ second := by
  intro items position y a
  refine bind_eq_ok.trans ⟨?_, ?_⟩
  · rintro ⟨⟨x, ⟨rest, position'⟩⟩, hread, hnext⟩
    obtain ⟨first, hfirst, hitems, hposition⟩ := (h ..).mp hread
    obtain ⟨second, hsecond, hrest, hend⟩ := (h' x ..).mp hnext
    refine ⟨first ++ second, ⟨x, first, second, hfirst, hsecond, rfl⟩, ?_, ?_⟩
    · simp only at hrest hitems
      rw [hitems, hrest, List.append_assoc]
    · simp only at hposition
      rw [hend, hposition, List.length_append, Nat.add_assoc]
  · rintro ⟨_, ⟨x, first, second, hfirst, hsecond, rfl⟩, rfl, hend⟩
    refine ⟨(x, ⟨second ++ a.rest, position + first.length⟩), ?_, ?_⟩
    · exact (h ..).mpr ⟨first, hfirst, List.append_assoc .., rfl⟩
    · exact (h' x ..).mpr ⟨second, hsecond, rfl, by rw [hend, List.length_append, Nat.add_assoc]⟩

theorem Exact.congr {read : Reads α} {form form' : Form α} (h : Exact read form)
    (hform : ∀ x items, form x items ↔ form' x items) : Exact read form' := by
  simpa only [Exact, hform] using h

theorem exact_text (what : String) : Exact (text what) fun s items => items = [.text s] := by
  intro items position s a
  obtain ⟨rest, position'⟩ := a
  match items with
  | .text s' :: items => simp [text, eq_comm, and_assoc]
  | [] | .int _ :: _ | .bool _ :: _ | .record _ :: _ => simp [text]

theorem exact_int (what : String) : Exact (int what) fun n items => items = [.int n] := by
  intro items position n a
  obtain ⟨rest, position'⟩ := a
  match items with
  | .int n' :: items => simp [int, eq_comm, and_assoc]
  | [] | .text _ :: _ | .bool _ :: _ | .record _ :: _ => simp [int]

theorem exact_bool (what : String) : Exact (bool what) fun b items => items = [.bool b] := by
  intro items position b a
  obtain ⟨rest, position'⟩ := a
  match items with
  | .bool b' :: items => simp [bool, eq_comm, and_assoc]
  | [] | .text _ :: _ | .int _ :: _ | .record _ :: _ => simp [bool]

theorem exact_forestId : Exact forestId fun id items => ∃ name : Item, name.Names id ∧ items = [name] := by
  intro items position id a
  obtain ⟨rest, position'⟩ := a
  match items with
  | .text s :: items =>
    constructor
    · intro h
      cases h
      exact ⟨[.text s], ⟨_, .text s, rfl⟩, rfl, rfl⟩
    · rintro ⟨_, ⟨name, hname, rfl⟩, hitems, hend⟩
      cases hitems
      cases hname
      cases hend
      rfl
  | .int n :: items =>
    simp only [forestId]
    constructor
    · split
      · next hn =>
        intro h
        cases h
        exact ⟨[.int n], ⟨_, .number n hn, rfl⟩, rfl, rfl⟩
      · nofun
    · rintro ⟨_, ⟨name, hname, rfl⟩, hitems, hend⟩
      cases hitems
      cases hend
      cases hname with
      | number _ hn => rw [if_pos hn]; rfl
  | [] => simp [forestId]
  | .bool _ :: _ | .record _ :: _ =>
    refine ⟨nofun, ?_⟩
    rintro ⟨_, ⟨name, hname, rfl⟩, hitems, -⟩
    cases hitems
    cases hname

theorem exact_count (what : String) :
    Exact (count what) fun n items => ∃ k : Int64, k.toInt = n ∧ items = [.int k] := by
  intro items position n a
  obtain ⟨rest, position'⟩ := a
  refine bind_eq_ok.trans ⟨?_, ?_⟩
  · rintro ⟨⟨k, b⟩, hread, hcheck⟩
    obtain ⟨_, rfl, hitems, hposition⟩ := (exact_int what ..).mp hread
    simp only at hcheck
    split at hcheck
    · next hk =>
      cases hcheck
      exact ⟨_, ⟨k, by omega, rfl⟩, hitems, hposition⟩
    · cases hcheck
  · rintro ⟨_, ⟨k, hk, rfl⟩, hitems, hposition⟩
    refine ⟨(k, ⟨rest, position'⟩), (exact_int what ..).mpr ⟨_, rfl, hitems, hposition⟩, ?_⟩
    simp [hk]

inductive Row (form : Form α) : Form (List α)
  | nil : Row form [] []
  | cons {x : α} {xs : List α} {items more : List Item} :
      form x items → Row form xs more → Row form (x :: xs) (items ++ more)

theorem Row.map {form : Form α} {form' : Form β} {g : α → β} (hg : ∀ x items, form x items → form' (g x) items)
    {xs : List α} {items : List Item} (h : Row form xs items) : Row form' (xs.map g) items := by
  induction h with
  | nil => exact .nil
  | cons hx _ ih => exact .cons (hg _ _ hx) ih

theorem readSection_eq_ok {stop : Answer → Option Answer} {read : Reads α} {form entry : Form α}
    (hread : Exact read form) (hsome : ∀ x, ¬ form x [])
    (hentry : ∀ x items rest position, form x items ∧ stop ⟨items ++ rest, position⟩ = none ↔ entry x items)
    (items : List Item) (position : Nat) (xs : List α) (a : Answer) :
    readSection stop read ⟨items, position⟩ = .ok (xs, a) ↔
      ∃ taken left, Row entry xs taken ∧ items = taken ++ left ∧
        stop ⟨left, position + taken.length⟩ = some a := by
  suffices h : ∀ fuel, items.length < fuel → (entries stop read fuel ⟨items, position⟩ = .ok (xs, a) ↔
      ∃ taken left, Row entry xs taken ∧ items = taken ++ left ∧
        stop ⟨left, position + taken.length⟩ = some a) from h _ (Nat.lt_succ_self _)
  intro fuel hfuel
  induction fuel generalizing items position xs with
  | zero => omega
  | succ fuel ih =>
    rw [entries]
    cases hstop : stop ⟨items, position⟩ with
    | some b =>
      constructor
      · intro h
        cases h
        exact ⟨[], items, .nil, rfl, hstop⟩
      · rintro ⟨_, left, hrow, rfl, hend⟩
        cases hrow with
        | nil =>
          cases hstop.symm.trans hend
          rfl
        | cons hx hrow =>
          rw [List.append_assoc] at hstop
          cases hstop.symm.trans ((hentry _ _ _ _).mpr hx).2
    | none =>
      have hshorter {x : α} {first rest : List Item} (hx : form x first) (h : items = first ++ rest) :
          rest.length < fuel := by
        have := List.length_pos_iff.mpr fun hnil => hsome x (hnil ▸ hx)
        simp [h] at hfuel
        omega
      refine bind_eq_ok.trans ⟨?_, ?_⟩
      · rintro ⟨⟨x, ⟨rest, position'⟩⟩, hx, hmore⟩
        obtain ⟨⟨xs', b⟩, hxs, hlast⟩ := bind_eq_ok.mp hmore
        cases hlast
        obtain ⟨first, hfirst, hitems, hposition⟩ := (hread ..).mp hx
        simp only at hitems hposition
        obtain ⟨taken, left, hrow, rfl, hend⟩ := (ih rest position' xs' (hshorter hfirst hitems)).mp hxs
        have hopen : entry x first := (hentry x first (taken ++ left) position).mp ⟨hfirst, hitems ▸ hstop⟩
        refine ⟨first ++ taken, left, .cons hopen hrow, by rw [hitems, List.append_assoc], ?_⟩
        rw [List.length_append, ← Nat.add_assoc, ← hposition, hend]
      · rintro ⟨_, left, hrow, hitems, hend⟩
        cases hrow with
        | nil =>
          subst hitems
          cases hstop.symm.trans hend
        | @cons x xs' first taken hx hrow =>
          rw [List.append_assoc] at hitems
          have hfirst : form x first := ((hentry x first [] 0).mpr hx).1
          refine ⟨(x, ⟨taken ++ left, position + first.length⟩), (hread ..).mpr ⟨first, hfirst, hitems, rfl⟩, ?_⟩
          refine bind_eq_ok.mpr ⟨(xs', a), (ih _ _ _ (hshorter hfirst hitems)).mpr ⟨taken, left, hrow, rfl, ?_⟩, rfl⟩
          rw [List.length_append, ← Nat.add_assoc] at hend
          exact hend

theorem all_eq_ok {read : Reads α} {form : Form α} (hread : Exact read form) (hsome : ∀ x, ¬ form x [])
    (items : List Item) (position : Nat) (xs : List α) :
    all read ⟨items, position⟩ = .ok xs ↔ Row form xs items := by
  have hentry (x : α) (taken rest : List Item) (position : Nat) :
      form x taken ∧ atEnd ⟨taken ++ rest, position⟩ = none ↔ form x taken := by
    refine and_iff_left_of_imp fun hx => ?_
    have hne : taken ≠ [] := fun h => hsome x (h ▸ hx)
    simp [atEnd, hne]
  have hsection (a : Answer) := readSection_eq_ok hread hsome hentry items position xs a
  refine map_eq_ok.trans ⟨?_, ?_⟩
  · rintro ⟨⟨_, a⟩, hr, rfl⟩
    obtain ⟨taken, left, hrow, rfl, hend⟩ := (hsection a).mp hr
    have hleft : left = [] := by
      simp only [atEnd] at hend
      split at hend
      · next h => simpa using h
      · cases hend
    simpa [hleft] using hrow
  · intro hrow
    refine ⟨(xs, ⟨[], position + items.length⟩), (hsection _).mpr ⟨items, [], hrow, ?_, ?_⟩, rfl⟩
    · rw [List.append_nil]
    · simp [atEnd]

theorem behind?_eq_some {marker : String} {items : List Item} {position : Nat} {a : Answer} :
    behind? marker ⟨items, position⟩ = some a ↔ items = .text marker :: a.rest ∧ a.position = position + 1 := by
  obtain ⟨rest, position'⟩ := a
  match items with
  | .text s :: items =>
    by_cases hs : s = marker
    · simp [behind?, hs, eq_comm]
    · simp [behind?, hs]
  | [] | .int _ :: _ | .bool _ :: _ | .record _ :: _ => simp [behind?]

theorem readTexts_eq_ok (marker what : String) (items : List Item) (position : Nat) (texts : List String)
    (a : Answer) :
    readSection (behind? marker) (text what) ⟨items, position⟩ = .ok (texts, a) ↔
      marker ∉ texts ∧ items = texts.map .text ++ .text marker :: a.rest ∧
        a.position = position + texts.length + 1 := by
  have hentry (s : String) (taken rest : List Item) (position : Nat) :
      taken = [.text s] ∧ behind? marker ⟨taken ++ rest, position⟩ = none ↔ s ≠ marker ∧ taken = [.text s] := by
    constructor
    · rintro ⟨rfl, hstop⟩
      simpa [behind?] using hstop
    · rintro ⟨hs, rfl⟩
      simp [behind?, hs]
  have hrow (taken : List Item) :
      Row (fun s taken => s ≠ marker ∧ taken = [.text s]) texts taken ↔
        marker ∉ texts ∧ taken = texts.map Item.text := by
    induction texts generalizing taken with
    | nil => exact ⟨fun h => by cases h; simp, fun ⟨_, h⟩ => h ▸ .nil⟩
    | cons s texts ih =>
      constructor
      · rintro (_ | ⟨⟨hs, rfl⟩, hmore⟩)
        obtain ⟨hmarker, rfl⟩ := (ih _).mp hmore
        exact ⟨List.not_mem_cons_of_ne_of_not_mem hs.symm hmarker, rfl⟩
      · rintro ⟨hmarker, rfl⟩
        have hs : s ≠ marker := (List.ne_of_not_mem_cons hmarker).symm
        exact .cons ⟨hs, rfl⟩ ((ih _).mpr ⟨List.not_mem_of_not_mem_cons hmarker, rfl⟩)
  refine (readSection_eq_ok (exact_text what) (by simp) hentry items position texts a).trans ?_
  simp only [hrow, behind?_eq_some]
  constructor
  · rintro ⟨_, _, ⟨hmarker, rfl⟩, rfl, rfl, hend⟩
    exact ⟨hmarker, rfl, by simpa using hend⟩
  · rintro ⟨hmarker, rfl, hend⟩
    exact ⟨_, _, ⟨hmarker, rfl⟩, rfl, rfl, by simpa using hend⟩

def replicaForm : Form Replica := fun r items => ∃ name : Item, name.Names r.forest ∧ items = [name, .text r.host]

theorem Row.length_replicas {rs : List Replica} {items : List Item} (h : Row replicaForm rs items) :
    items.length = 2 * rs.length := by
  induction h with
  | nil => rfl
  | cons hr _ ih =>
    obtain ⟨name, -, rfl⟩ := hr
    simp [ih]
    omega

theorem exact_replicas (n : Nat) :
    Exact (replicas n) fun rs items => rs.length = n ∧ Row replicaForm rs items := by
  induction n with
  | zero =>
    refine (exact_pure []).congr fun rs items => ⟨?_, ?_⟩
    · rintro ⟨rfl, rfl⟩
      exact ⟨rfl, .nil⟩
    · rintro ⟨hlength, hrow⟩
      cases hrow with
      | nil => exact ⟨rfl, rfl⟩
      | cons => simp at hlength
  | succ n ih =>
    refine (exact_forestId.bind fun forest => (exact_text "replica host").bind fun host =>
      ih.bind fun rs => exact_pure (⟨forest, host⟩ :: rs)).congr fun rs items => ⟨?_, ?_⟩
    · rintro ⟨forest, _, _, ⟨name, hname, rfl⟩,
        ⟨host, _, _, rfl, ⟨rs', more, _, ⟨rfl, hrow⟩, ⟨rfl, rfl⟩, rfl⟩, rfl⟩, rfl⟩
      rw [List.append_nil]
      exact ⟨rfl, .cons (x := ⟨forest, host⟩) ⟨name, hname, rfl⟩ hrow⟩
    · rintro ⟨hlength, hrow⟩
      cases hrow with
      | nil => cases hlength
      | @cons r rs' _ more hr hrow =>
        obtain ⟨name, hname, rfl⟩ := hr
        refine ⟨r.forest, [name], _, ⟨name, hname, rfl⟩, ⟨r.host, [.text r.host], more, rfl, ?_, rfl⟩, rfl⟩
        exact ⟨rs', more, [], ⟨by simpa using hlength, hrow⟩, ⟨rfl, rfl⟩, by simp⟩

def groupForm : Form (ForestId × List Replica) := fun group items =>
  ∃ (name : Item) (n : Int64) (pairs : List Item), name.Names group.1 ∧ n.toInt = group.2.length ∧
    Row replicaForm group.2 pairs ∧ items = name :: .int n :: pairs

/-- A number that what is left of the answer cannot hold is refused; a group's own replicas always fit. -/
theorem exact_fitting (forest : ForestId) (n : Nat) :
    Exact (fun a => if a.rest.length < 2 * n then .error (.tooManyReplicas forest n a.rest.length)
        else do let (rs, a) ← replicas n a; .ok ((forest, rs), a))
      fun group items => group.1 = forest ∧ group.2.length = n ∧ Row replicaForm group.2 items := by
  have hbind := (exact_replicas n).bind fun rs => exact_pure (forest, rs)
  intro items position group a
  simp only
  split
  · next hshort =>
    refine ⟨nofun, ?_⟩
    rintro ⟨taken, ⟨-, hn, hrow⟩, rfl, -⟩
    have := hrow.length_replicas
    simp only [List.length_append] at hshort
    omega
  · refine (hbind items position group a).trans ⟨?_, ?_⟩
    · rintro ⟨_, ⟨rs, pairs, _, ⟨hn, hrow⟩, ⟨rfl, rfl⟩, rfl⟩, hitems, hposition⟩
      exact ⟨_, ⟨rfl, hn, (List.append_nil pairs).symm ▸ hrow⟩, hitems, hposition⟩
    · rintro ⟨pairs, ⟨rfl, hn, hrow⟩, hitems, hposition⟩
      exact ⟨pairs, ⟨group.2, pairs, [], ⟨hn, hrow⟩, ⟨rfl, rfl⟩, (List.append_nil _).symm⟩, hitems, hposition⟩

theorem exact_replicaGroup : Exact replicaGroup groupForm := by
  refine (exact_forestId.bind fun forest =>
    (exact_count "replica count").bind fun n => exact_fitting forest n).congr fun group items => ⟨?_, ?_⟩
  · rintro ⟨_, _, _, ⟨name, hname, rfl⟩, ⟨_, _, pairs, ⟨n, hn, rfl⟩, ⟨rfl, rfl, hrow⟩, rfl⟩, rfl⟩
    exact ⟨name, n, pairs, hname, hn, hrow, rfl⟩
  · rintro ⟨name, n, pairs, hname, hn, hrow, rfl⟩
    exact ⟨group.1, [name], _, ⟨name, hname, rfl⟩, ⟨_, [.int n], pairs, ⟨n, hn, rfl⟩, ⟨rfl, rfl, hrow⟩, rfl⟩, rfl⟩

section Attach

variable {forest : α → ForestId} {put : List Replica → α → α}

/-- What an entry is after the groups: of the entries for a forest, the first one has the forest's last group. -/
def attached (forest : α → ForestId) (put : List Replica → α → α) (groups : List (ForestId × List Replica))
    (xs : List α) : List α :=
  xs.mapIdx fun i x =>
    if forest x ∈ (xs.take i).map forest then x else ((groups.reverse.lookup (forest x)).map (put · x)).getD x

@[simp]
theorem attached_nil (xs : List α) : attached forest put [] xs = xs := by
  simp [attached, List.mapIdx_eq_zipIdx_map]

@[simp]
theorem length_attached (groups : List (ForestId × List Replica)) (xs : List α) :
    (attached forest put groups xs).length = xs.length := by
  simp [attached]

theorem getElem_attached (groups : List (ForestId × List Replica)) (xs : List α) (i : Nat) (h : i < xs.length)
    {hi : i < (attached forest put groups xs).length} :
    (attached forest put groups xs)[i] =
      if forest xs[i] ∈ (xs.map forest).take i then xs[i]
      else ((groups.reverse.lookup (forest xs[i])).map (put · xs[i])).getD xs[i] := by
  simp [attached, List.map_take]

theorem map_attached {field : α → β} (hfield : ∀ rs x, field (put rs x) = field x)
    (groups : List (ForestId × List Replica)) (xs : List α) :
    (attached forest put groups xs).map field = xs.map field := by
  refine List.ext_getElem (by simp) fun i _ h => ?_
  rw [List.length_map] at h
  rw [List.getElem_map, List.getElem_map, getElem_attached groups xs i h]
  split
  · rfl
  · cases groups.reverse.lookup (forest xs[i]) with
    | none => rfl
    | some rs => exact hfield rs _

theorem attached_append (hid : ∀ rs x, forest (put rs x) = forest x)
    (hput : ∀ rs rs' x, put rs (put rs' x) = put rs x) (groups : List (ForestId × List Replica))
    (group : ForestId × List Replica) (xs : List α) :
    attached forest put (groups ++ [group]) xs = attached forest put [group] (attached forest put groups xs) := by
  obtain ⟨name, rs⟩ := group
  refine List.ext_getElem (by simp) fun i h _ => ?_
  rw [length_attached] at h
  have hi : i < (attached forest put groups xs).length := by simpa using h
  have hidi : forest (attached forest put groups xs)[i] = forest xs[i] := by
    have hids : (attached forest put groups xs).map forest = xs.map forest := map_attached hid groups xs
    have := List.getElem_of_eq hids (i := i) (by simpa using h)
    rwa [List.getElem_map, List.getElem_map] at this
  rw [getElem_attached _ _ i h, getElem_attached _ _ i hi, hidi, map_attached hid, getElem_attached _ _ i h,
    List.reverse_append]
  split
  · rfl
  · cases hgroup : forest xs[i] == name <;>
      cases hgroups : groups.reverse.lookup (forest xs[i]) <;> simp [List.lookup_cons, hgroup, hgroups, hput]

theorem getElem_attached_singleton (group : ForestId × List Replica) (xs : List α) (i : Nat) (h : i < xs.length)
    {hi : i < (attached forest put [group] xs).length} :
    (attached forest put [group] xs)[i] =
      if forest xs[i] = group.1 ∧ group.1 ∉ (xs.map forest).take i then put group.2 xs[i] else xs[i] := by
  obtain ⟨name, rs⟩ := group
  rw [getElem_attached _ _ i h]
  by_cases hname : forest xs[i] = name
  · subst hname
    simp
  · simp [hname, List.lookup_cons, beq_eq_false_iff_ne.mpr hname]

theorem attachGroup_eq_ok (group : ForestId × List Replica) (xs ys : List α) :
    attachGroup forest put group xs = .ok ys ↔ group.1 ∈ xs.map forest ∧ ys = attached forest put [group] xs := by
  induction xs generalizing ys with
  | nil => simp [attachGroup]
  | cons x xs ih =>
    by_cases hx : forest x = group.1
    · have hattached : attached forest put [group] (x :: xs) = put group.2 x :: xs := by
        refine List.ext_getElem (by simp) fun i h _ => ?_
        rw [getElem_attached_singleton _ _ i (by simpa using h)]
        cases i <;> simp [hx]
      simp [attachGroup, hx, hattached, eq_comm]
    · have hattached : attached forest put [group] (x :: xs) = x :: attached forest put [group] xs := by
        refine List.ext_getElem (by simp) fun i h _ => ?_
        rw [getElem_attached_singleton _ _ i (by simpa using h)]
        cases i with
        | zero => simp [hx]
        | succ i =>
          simp only [length_attached, List.length_cons, Nat.add_lt_add_iff_right] at h
          simp [getElem_attached_singleton _ _ i h, Ne.symm hx]
      rw [attachGroup, if_neg hx, map_eq_ok]
      simp only [ih, hattached, List.map_cons, List.mem_cons, Ne.symm hx, false_or]
      exact ⟨fun ⟨_, ⟨hmem, hzs⟩, hys⟩ => ⟨hmem, hzs ▸ hys.symm⟩, fun ⟨hmem, hys⟩ => ⟨_, ⟨hmem, rfl⟩, hys.symm⟩⟩

theorem attach_eq_ok (hid : ∀ rs x, forest (put rs x) = forest x) (hput : ∀ rs rs' x, put rs (put rs' x) = put rs x)
    (groups : List (ForestId × List Replica)) (xs ys : List α) :
    attach forest put xs groups = .ok ys ↔
      (∀ group ∈ groups, group.1 ∈ xs.map forest) ∧ ys = attached forest put groups xs := by
  induction groups using List.reverseRecOn generalizing ys with
  | nil => simp [attach, pure, Except.pure, eq_comm]
  | append_singleton groups group ih =>
    have hstep : attach forest put xs (groups ++ [group]) =
        attach forest put xs groups >>= attachGroup forest put group := by
      simp [attach, List.foldlM_append]
    rw [hstep, bind_eq_ok, attached_append hid hput]
    simp only [ih, attachGroup_eq_ok, List.forall_mem_append, List.forall_mem_singleton]
    constructor
    · rintro ⟨_, ⟨hgroups, rfl⟩, hgroup, rfl⟩
      rw [map_attached hid] at hgroup
      exact ⟨⟨hgroups, hgroup⟩, rfl⟩
    · rintro ⟨⟨hgroups, hgroup⟩, rfl⟩
      exact ⟨_, ⟨hgroups, rfl⟩, (map_attached hid groups xs).symm ▸ hgroup, rfl⟩

variable {xs : List α} (hbare : ∀ x ∈ xs, put [] x = x) (groups : List (ForestId × List Replica))

include hbare

theorem attached_bare :
    attached forest put groups xs = xs.mapIdx fun i x =>
      put (if forest x ∈ (xs.take i).map forest then [] else (groups.reverse.lookup (forest x)).getD []) x := by
  refine List.ext_getElem (by simp) fun i h _ => ?_
  rw [length_attached] at h
  have hbare := hbare xs[i] (List.getElem_mem h)
  rw [getElem_attached groups xs i h, List.getElem_mapIdx, List.map_take]
  split
  · exact hbare.symm
  · cases groups.reverse.lookup (forest xs[i]) with
    | none => exact hbare.symm
    | some rs => rfl

end Attach

end Answer

end ForestCourier
