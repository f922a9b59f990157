import Mathlib.Algebra.Group.Nat.Defs
import ForestCourier.Proofs.Discovery.Description
import ForestCourier.Proofs.Session.Confinement

/-!
The document counts that discovery comes to. A count is told as an integer that is not below zero, or not at all
and taken for zero, so whatever a server answers it is below `2 ^ 63`.
-/

namespace ForestCourier

theorem Answer.Row.forall_mem {α : Type} {form : Form α} {P : α → Prop} (h : ∀ x items, form x items → P x)
    {xs : List α} {items : List Item} (hrow : Row form xs items) : ∀ x ∈ xs, P x := by
  induction hrow with
  | nil => exact List.forall_mem_nil P
  | cons hx _ ih => exact List.forall_mem_cons.mpr ⟨h _ _ hx, ih⟩

namespace Discovery

variable {σ : Type} {srv : Server σ} {session : Session} {R : Wire σ → Prop}

theorem readForests_counts {items : List Item} {forests : List Forest} (h : readForests items = .ok forests) :
    ∀ f ∈ forests, f.documents.toNat < 2 ^ 63 := by
  have hrow := (Answer.all_eq_ok exact_forestInfo (by simp [infoForm]) items 0 forests).mp h
  refine hrow.forall_mem fun f items hf => ?_
  obtain ⟨-, name, n, -, hn, -⟩ := hf
  have := n.toInt_lt
  omega

theorem readLegacyForests_counts {items : List Item} {forests : List Forest}
    (h : readLegacyForests items = .ok forests) : ∀ f ∈ forests, f.documents.toNat < 2 ^ 63 := by
  have hrow := (Answer.all_eq_ok exact_legacyForest (by simp [legacyForm]) items 0 forests).mp h
  refine hrow.forall_mem fun f items hf => ?_
  have hzero : f.documents = 0 := congrArg Forest.documents hf.1
  rw [hzero]
  decide

theorem attachReplicas_counts {forests attached : List Forest} {groups : List (ForestId × List Replica)}
    (h : attachReplicas forests groups = .ok attached) :
    attached.map (·.documents) = forests.map (·.documents) := by
  have hid (replicas : List Replica) (f : Forest) : { f with replicas }.id = f.id := rfl
  have hdocuments (replicas : List Replica) (f : Forest) : { f with replicas }.documents = f.documents := rfl
  rw [((Answer.attach_eq_ok hid (fun _ _ _ => rfl) groups forests attached).mp h).2]
  exact Answer.map_attached hdocuments groups forests

theorem keeps_decoded_of {α : Type} {r : Except ProtocolError α} {P : α → Prop} (h : ∀ x, r = .ok x → P x) :
    (decoded r : Talk σ α).Keeps R P := by
  refine fun _ => ⟨id, fun x hx => h x ?_⟩
  cases r with
  | error e => cases hx
  | ok y => cases hx; rfl

namespace Lasts

theorem keeps_counts (h : Lasts srv session R) (caps : Capabilities) :
    (findForests srv session caps).Keeps R fun forests => ∀ f ∈ forests, f.documents.toNat < 2 ^ 63 := by
  have hreplicas {forests : List Forest} (hforests : ∀ f ∈ forests, f.documents.toNat < 2 ^ 63) : (do
      let query := if caps.replicaHosts then Queries.replicaHosts else Queries.legacyReplica
      let groups ← decoded (readReplicaGroups (← ask srv session ⟨query, []⟩))
      decoded (attachReplicas forests groups) : Talk σ (List Forest)).Keeps R
        fun forests => ∀ f ∈ forests, f.documents.toNat < 2 ^ 63 := by
    refine (h.keeps_ask _).bind fun items _ => (keeps_decoded _).bind fun groups _ => ?_
    refine keeps_decoded_of fun attached hattached f hf => ?_
    have hmem : f.documents ∈ attached.map (·.documents) := List.mem_map_of_mem hf
    rw [attachReplicas_counts hattached] at hmem
    obtain ⟨f', hf', hsame⟩ := List.mem_map.mp hmem
    exact hsame ▸ hforests f' hf'
  unfold findForests
  dsimp only
  split
  · refine (h.keeps_ask _).bind fun items _ => ?_
    exact (keeps_decoded_of fun _ => readForests_counts).bind fun forests hforests => hreplicas hforests
  · refine (h.keeps_ask _).bind fun items _ => ?_
    exact (keeps_decoded_of fun _ => readLegacyForests_counts).bind fun forests hforests => hreplicas hforests

theorem keeps_layout_counts (h : Lasts srv session R) (config : Config.Output) :
    (survey srv session config).Keeps R fun layout => ∀ f ∈ layout.forests.forests, f.documents.toNat < 2 ^ 63 := by
  refine h.keeps_probe.bind fun caps _ => ?_
  refine (h.keeps_findPolicy config caps).bind fun policy _ => ?_
  refine (h.keeps_counts caps).bind fun forests hforests => ?_
  refine (h.keeps_ask _).bind fun items _ => (keeps_decoded _).bind fun directories _ => ?_
  refine (h.keeps_resolveFastLoad config directories).bind fun fastLoad _ => Talk.keeps_pure ?_
  dsimp only
  split
  · intro f hf
    unfold Topology.restrict at hf
    split at hf
    · exact hforests f hf
    · obtain ⟨i, hi, rfl⟩ := List.mem_mapIdx.mp hf
      have hsame : (Topology.restrictForest config.hosts i forests[i]).documents = forests[i].documents := rfl
      rw [hsame]
      exact hforests _ (List.getElem_mem hi)
  · exact hforests

end Lasts

theorem discover_counts {config : Config.Output} {w : Wire σ} {layout : Layout}
    (h : (discover srv config w).1 = .ok layout) : ∀ f ∈ layout.forests.forests, f.documents.toNat < 2 ^ 63 := by
  unfold discover at h
  split at h
  · cases h
  · next session w₁ _ =>
    have hlasts : Lasts srv session (Wire.Within []) := lasts_within srv session
    exact (hlasts.keeps_layout_counts config w₁).2 layout h

end Discovery

end ForestCourier
