import ForestCourier.Proofs.Config.Settings

/-!
Permissions as they are written down. Roles and capabilities are entries in turn, a capability in any letter case: a
text that is put together from permissions in this way is read as those permissions, and nothing is read that is not
written in this way.
-/

namespace ForestCourier

namespace Capability

theorem lookup_eq_some_iff {s : String} {c : Capability} : names.lookup s = some c ↔ s = c.name := by
  refine ⟨fun h => ?_, fun h => h ▸ lookup_name c⟩
  obtain ⟨before, after, hnames, -⟩ := List.lookup_eq_some_iff.mp h
  have hmem : (s, c) ∈ names := hnames ▸ List.mem_append_right _ List.mem_cons_self
  have hnamed : ∀ p ∈ names, p.1 = p.2.name := by decide
  exact hnamed _ hmem

theorem isEntry_name (c : Capability) : Text.IsEntry c.name := by
  cases c <;> decide

end Capability

namespace Config

theorem Value.capability_eq_ok {s : String} {c : Capability} : Value.capability s = .ok c ↔ Text.lower s = c.name := by
  rw [← Capability.lookup_eq_some_iff, Value.capability, Value.named]
  cases Capability.names.lookup (Text.lower s) with
  | none => exact ⟨nofun, nofun⟩
  | some c' => simp

/-- The values that write permissions down. -/
inductive Grants : List String → List Permission → Prop
  | nil : Grants [] []
  | cons {values : List String} {granted : List Permission} (role name : String) (capability : Capability) :
      Text.lower name = capability.name → Grants values granted →
      Grants (role :: name :: values) (⟨role, capability⟩ :: granted)

variable {values : List String} {granted : List Permission}

theorem permissionsOf_eq_ok : permissionsOf values = .ok granted ↔ Grants values granted := by
  induction values using permissionsOf.induct generalizing granted with
  | case1 =>
    refine ⟨fun h => ?_, fun h => ?_⟩
    · cases h
      exact .nil
    · cases h
      rfl
  | case2 role => exact ⟨nofun, nofun⟩
  | case3 role name rest ih =>
    simp only [permissionsOf, bind_eq_ok, mapError_eq_ok, Value.capability_eq_ok, ih]
    refine ⟨fun ⟨capability, hname, more, hmore, h⟩ => ?_, fun h => ?_⟩
    · cases h
      exact .cons role name capability hname hmore
    · cases h with
      | cons _ _ capability hname hmore => exact ⟨capability, hname, _, hmore, rfl⟩

theorem Grants.length (h : Grants values granted) : values.length = 2 * granted.length := by
  induction h with
  | nil => rfl
  | cons _ _ _ _ _ ih =>
    rw [List.length_cons, List.length_cons, List.length_cons, ih]
    omega

theorem permissions_eq_ok : permissions values = .ok granted ↔ Grants values granted := by
  unfold permissions
  split
  · exact permissionsOf_eq_ok
  · next hodd =>
    refine ⟨nofun, fun h => absurd ?_ hodd⟩
    rw [h.length]
    omega

theorem Grants.place (h : Grants values granted) {i : Nat} {p : Permission} (hp : granted[i]? = some p) :
    values[2 * i]? = some p.role ∧
      ∃ name, values[2 * i + 1]? = some name ∧ Text.lower name = p.capability.name := by
  induction h generalizing i with
  | nil => cases hp
  | cons role name capability hname _ ih =>
    cases i with
    | zero =>
      cases hp
      exact ⟨rfl, name, rfl, hname⟩
    | succ i => exact ih hp

theorem grants_of_places (hlength : values.length = 2 * granted.length)
    (hplaces : ∀ i p, granted[i]? = some p → values[2 * i]? = some p.role ∧
      ∃ name, values[2 * i + 1]? = some name ∧ Text.lower name = p.capability.name) : Grants values granted := by
  induction granted generalizing values with
  | nil =>
    rw [List.length_eq_zero_iff.mp hlength]
    exact .nil
  | cons p granted ih =>
    obtain ⟨hrole, name, hname, hlower⟩ := hplaces 0 p rfl
    match values with
    | [] => cases hrole
    | [_] => cases hname
    | role :: name :: values =>
      cases hrole
      cases hname
      refine .cons _ _ _ hlower (ih ?_ fun i p' hp' => hplaces (i + 1) p' hp')
      simp only [List.length_cons] at hlength
      omega

theorem grants_iff : Grants values granted ↔ values.length = 2 * granted.length ∧
    ∀ i p, granted[i]? = some p → values[2 * i]? = some p.role ∧
      ∃ name, values[2 * i + 1]? = some name ∧ Text.lower name = p.capability.name :=
  ⟨fun h => ⟨h.length, fun _ _ => h.place⟩, fun ⟨hlength, hplaces⟩ => grants_of_places hlength hplaces⟩

theorem grants_flatMap (spelled : List (Permission × String))
    (h : ∀ g ∈ spelled, Text.lower g.2 = g.1.capability.name) :
    Grants (spelled.flatMap fun g => [g.1.role, g.2]) (spelled.map Prod.fst) := by
  induction spelled with
  | nil => exact .nil
  | cons g spelled ih =>
    obtain ⟨hg, hspelled⟩ := List.forall_mem_cons.mp h
    exact .cons g.1.role g.2 g.1.capability hg (ih hspelled)

theorem permissionsOf_error {e : TransferError} (h : permissionsOf values = .error e) : ∃ cause, e = .config cause := by
  induction values using permissionsOf.induct generalizing e with
  | case1 => cases h
  | case2 role =>
    cases h
    exact ⟨_, rfl⟩
  | case3 role name rest ih =>
    rw [permissionsOf] at h
    obtain hname | ⟨capability, -, h⟩ := bind_eq_error.mp h
    · obtain ⟨cause, -, rfl⟩ := mapError_eq_error.mp hname
      exact ⟨_, rfl⟩
    · obtain hrest | ⟨more, -, h⟩ := bind_eq_error.mp h
      · exact ih hrest
      · cases h

theorem permissions_error {e : TransferError} (h : permissions values = .error e) : ∃ cause, e = .config cause := by
  unfold permissions at h
  split at h
  · exact permissionsOf_error h
  · cases h
    exact ⟨_, rfl⟩

/-- Permissions are read back from the text that spells them out, in whatever letter case, and a blank text spells out
none. Values are read as permissions just where each of these has its role and the name of its capability at the two
places that are its own, and everything else is a complaint about the configuration. -/
theorem permissions_read_back :
    (∀ (o : Options) (spelled : List (Permission × String)),
      (∀ g ∈ spelled, Text.IsEntry g.1.role ∧ Text.lower g.2 = g.1.capability.name) →
      permissions ((o.set Key.outputPermission
          (String.intercalate "," (spelled.flatMap fun g => [g.1.role, g.2]))).list Key.outputPermission) =
        .ok (spelled.map Prod.fst)) ∧
      (∀ (o : Options) (text : String), Text.IsBlank text →
        permissions ((o.set Key.outputPermission text).list Key.outputPermission) = .ok []) ∧
      (∀ values granted, permissions values = .ok granted ↔ values.length = 2 * granted.length ∧
        ∀ i p, granted[i]? = some p → values[2 * i]? = some p.role ∧
          ∃ name, values[2 * i + 1]? = some name ∧ Text.lower name = p.capability.name) ∧
      ∀ values, (∀ granted, permissions values ≠ .ok granted) →
        ∃ cause, permissions values = .error (.config cause) := by
  refine ⟨fun o spelled h => ?_, fun o text h => ?_, fun values granted => permissions_eq_ok.trans grants_iff,
    fun values h => ?_⟩
  · rw [Options.list_set_intercalate, permissions_eq_ok]
    · exact grants_flatMap spelled fun g hg => (h g hg).2
    · intro x hx
      obtain ⟨g, hg, hx⟩ := List.mem_flatMap.mp hx
      obtain ⟨hrole, hname⟩ := h g hg
      obtain rfl | rfl := List.mem_pair.mp hx
      · exact hrole
      · exact .of_lower (hname ▸ g.1.capability.isEntry_name)
  · rw [Options.list_set_of_isBlank o _ h]
    rfl
  · cases hread : permissions values with
    | error e =>
      obtain ⟨cause, rfl⟩ := permissions_error hread
      exact ⟨cause, rfl⟩
    | ok granted => exact absurd hread (h granted)

theorem permissions_read_back_mixed_case :
    let spelled : List (Permission × String) :=
      [(⟨"reader", .read⟩, "READ"), (⟨"content writer", .nodeUpdate⟩, "Node-Update")]
    (∀ g ∈ spelled, Text.IsEntry g.1.role ∧ Text.lower g.2 = g.1.capability.name) ∧
      permissions ((Options.empty.set Key.outputPermission "reader,READ,content writer,Node-Update").list
        Key.outputPermission) = .ok (spelled.map Prod.fst) ∧
      permissions ((Options.empty.set Key.outputPermission " \t").list Key.outputPermission) = .ok [] ∧
      ∃ cause, permissions ["reader", "READ", "content writer"] = .error (.config cause) := by
  intro spelled
  have hspelled : ∀ g ∈ spelled, Text.IsEntry g.1.role ∧ Text.lower g.2 = g.1.capability.name := by decide +kernel
  obtain ⟨hread, hblank, -, hfails⟩ := permissions_read_back
  exact ⟨hspelled, hread .empty spelled hspelled, hblank .empty " \t" (by decide), hfails _ (fun _ => nofun)⟩

end Config

end ForestCourier
