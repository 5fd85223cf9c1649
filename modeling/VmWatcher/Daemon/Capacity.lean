import VmWatcher.Daemon.Shape
import VmWatcher.Misc.OpEnv
import Mathlib.Data.Set.Card

/-!
# Maps of fixed capacity

The kernel maps are created with a fixed number of entries. An insert fails for space
when its key is absent and the map is full; overwriting an entry and removing one always
fit.
-/

namespace VmWatcher

/-! ### What the maps hold -/

instance : Finite LimitKey :=
  .of_injective (fun key => (key.ipv4.toFin, key.direction.toFin)) fun a b h => by
    cases a
    cases b
    simpa [UInt32.toFin_inj, UInt8.toFin_inj] using h

instance : Finite Cidr :=
  .of_injective (fun cidr => (cidr.prefixLen.toFin, cidr.network.toFin)) fun a b h => by
    cases a
    cases b
    simpa [UInt32.toFin_inj, UInt8.toFin_inj] using h

namespace Shape

/-- The flows with an entry in `LIMIT_POLICIES`. -/
def armed (σ : Shape) : Set LimitKey := {key | (σ.flow key).policy.isSome}

/-- The flows with an entry in `LIMIT_STATE` or in `SWL_LOG`. -/
def holding (a : Artifact) (σ : Shape) : Set LimitKey := {key | (σ.flow key).artifacts a = true}

/-- The prefixes in the whitelist trie. -/
def listed (σ : Shape) : Set Cidr := {cidr | σ.whitelisted cidr = true}

variable {σ τ : Shape} {key : LimitKey} {a b : Artifact}

theorem armed_congr (h : τ.flow = σ.flow) : τ.armed = σ.armed := by simp only [armed, h]

theorem holding_congr (h : τ.flow = σ.flow) : τ.holding a = σ.holding a := by
  simp only [holding, h]

theorem armed_arm (policy : LimitPolicy) :
    (σ.onFlow key (.arm policy)).armed = insert key σ.armed := by
  ext k
  by_cases h : k = key
  · subst h
    simp [armed]
  · simp [armed, h]

theorem armed_disarm : (σ.onFlow key .disarm).armed = σ.armed \ {key} := by
  ext k
  by_cases h : k = key
  · subst h
    simp [armed]
  · simp [armed, h]

/-- Artifacts come and go without a change to what is armed. -/
theorem armed_of_policy {g : FlowShape → FlowShape} (h : ∀ f, (g f).policy = f.policy) :
    (σ.onFlow key g).armed = σ.armed := by
  ext k
  by_cases hk : k = key
  · subst hk
    simp [armed, h]
  · simp [armed, hk]

/-- Policies come and go without a change to the artifacts. -/
theorem holding_of_artifacts {g : FlowShape → FlowShape}
    (h : ∀ f, (g f).artifacts = f.artifacts) :
    (σ.onFlow key g).holding a = σ.holding a := by
  ext k
  by_cases hk : k = key
  · subst hk
    simp [holding, h]
  · simp [holding, hk]

theorem holding_write :
    (σ.onFlow key (.write b)).holding a =
      if a = b then insert key (σ.holding a) else σ.holding a := by
  ext k
  by_cases hk : k = key
  · subst hk
    by_cases hab : a = b <;> simp [holding, FlowShape.write, hab]
  · by_cases hab : a = b <;> simp [holding, hk, hab]

theorem holding_clear :
    (σ.onFlow key (.clear b)).holding a =
      if a = b then σ.holding a \ {key} else σ.holding a := by
  ext k
  by_cases hk : k = key
  · subst hk
    by_cases hab : a = b <;> simp [holding, FlowShape.clear, hab]
  · by_cases hab : a = b <;> simp [holding, hk, hab]

theorem listed_insert (cidr : Cidr) : (σ.setPrefix cidr true).listed = insert cidr σ.listed := by
  ext c
  by_cases h : c = cidr <;> simp [listed, setPrefix, h]

end Shape

/-! ### What fits -/

/-- The number of entries of each map. -/
structure Capacity where
  policies : ℕ
  artifacts : Artifact → ℕ
  prefixes : ℕ

section Room

variable {K : Type} {s : Set K} {k : K} {n : ℕ}

/-- An insert that leaves no more than `n` entries has found the key or a free entry. -/
theorem room_of_insert [Finite K] (h : (insert k s).ncard ≤ n) : k ∈ s ∨ s.ncard < n := by
  by_cases hk : k ∈ s
  · exact Or.inl hk
  · rw [Set.ncard_insert_of_notMem hk] at h
    exact Or.inr h

theorem ncard_insert_le_of_room (h : k ∈ s ∨ s.ncard < n) (hs : s.ncard ≤ n) :
    (insert k s).ncard ≤ n := by
  rcases h with hk | hfree
  · rwa [Set.insert_eq_of_mem hk]
  · exact (Set.ncard_insert_le k s).trans hfree

theorem ncard_remove_le [Finite K] (hs : s.ncard ≤ n) : (s \ {k}).ncard ≤ n :=
  (Set.ncard_le_ncard Set.sdiff_subset).trans hs

end Room

namespace Capacity

variable (cap : Capacity)

/-- The operation does not run out of space. -/
def Fits : MapOp → Shape → Prop
  | .armPolicy key _, σ => key ∈ σ.armed ∨ σ.armed.ncard < cap.policies
  | .writeFreshState key algorithm, σ =>
      key ∈ σ.holding (artifactOf algorithm) ∨
        (σ.holding (artifactOf algorithm)).ncard < cap.artifacts (artifactOf algorithm)
  | .wlInsert cidr, σ => cidr ∈ σ.listed ∨ σ.listed.ncard < cap.prefixes
  | _, _ => True

/-- What succeeds has found space; anything may fail for another reason. -/
def Limits (op : MapOp) (error : Option AnyError) (σ : Shape) : Prop :=
  error = none → cap.Fits op σ

theorem Limits.space {cap : Capacity} (op : MapOp) (σ : Shape) (h : cap.Limits op none σ) :
    cap.Fits op σ := h rfl

/-- An operation fails exactly when it runs out of space. -/
def Decides (op : MapOp) (error : Option AnyError) (σ : Shape) : Prop :=
  error = none ↔ cap.Fits op σ

theorem Decides.space {cap : Capacity} (op : MapOp) (σ : Shape) (h : cap.Decides op none σ) :
    cap.Fits op σ := h.mp rfl

theorem Decides.succeeds {cap : Capacity} {op : MapOp} {σ : Shape} (fits : cap.Fits op σ)
    (e : AnyError) : ¬ cap.Decides op (some e) σ := fun h => Option.some_ne_none e (h.mpr fits)

/-- The limit maps hold no more than their number of entries. -/
structure HoldsFlows (σ : Shape) : Prop where
  armed : σ.armed.ncard ≤ cap.policies
  holding : ∀ a, (σ.holding a).ncard ≤ cap.artifacts a

variable {cap} {σ τ : Shape}

theorem HoldsFlows.congr (h : cap.HoldsFlows σ) (same : τ.flow = σ.flow) : cap.HoldsFlows τ :=
  ⟨Shape.armed_congr same ▸ h.armed, fun a => Shape.holding_congr same ▸ h.holding a⟩

/-- What fits leaves no more entries than there may be. -/
theorem HoldsFlows.exec {op : MapOp} (h : cap.HoldsFlows σ) (fits : cap.Fits op σ) :
    cap.HoldsFlows (Shape.exec op σ).2 := by
  cases op with
  | getPolicy key | clearPolicer key | wlInsert cidr | wlRemove cidr => exact h.congr rfl
  | armPolicy key policy =>
    refine ⟨?_, ?_⟩
    · rw [Shape.exec, Shape.armed_arm]
      exact ncard_insert_le_of_room fits h.armed
    · intro a
      rw [Shape.exec, Shape.holding_of_artifacts (FlowShape.arm_artifacts policy)]
      exact h.holding a
  | disarmPolicy key =>
    refine ⟨?_, ?_⟩
    · rw [Shape.exec, Shape.armed_disarm]
      exact ncard_remove_le h.armed
    · intro a
      rw [Shape.exec, Shape.holding_of_artifacts FlowShape.disarm_artifacts]
      exact h.holding a
  | writeFreshState key algorithm =>
    refine ⟨?_, ?_⟩
    · rw [Shape.exec, Shape.armed_of_policy (FlowShape.write_policy _)]
      exact h.armed
    · intro a
      rw [Shape.exec, Shape.holding_write]
      by_cases ha : a = artifactOf algorithm
      · subst ha
        rw [if_pos rfl]
        exact ncard_insert_le_of_room fits (h.holding _)
      · rw [if_neg ha]
        exact h.holding a
  | clearState key algorithm =>
    refine ⟨?_, ?_⟩
    · rw [Shape.exec, Shape.armed_of_policy (FlowShape.clear_policy _)]
      exact h.armed
    · intro a
      rw [Shape.exec, Shape.holding_clear]
      by_cases ha : a = artifactOf algorithm
      · rw [if_pos ha]
        exact ncard_remove_le (h.holding a)
      · rw [if_neg ha]
        exact h.holding a

/-- Fresh state and arming fit where their outcome does. -/
theorem fits_write {key : LimitKey} {algorithm : UInt32}
    (h : ((σ.onFlow key (.write (artifactOf algorithm))).holding (artifactOf algorithm)).ncard ≤
      cap.artifacts (artifactOf algorithm)) : cap.Fits (.writeFreshState key algorithm) σ := by
  rw [Shape.holding_write, if_pos rfl] at h
  exact room_of_insert h

theorem fits_arm {key : LimitKey} {policy : LimitPolicy}
    (h : (σ.onFlow key (.arm policy)).armed.ncard ≤ cap.policies) :
    cap.Fits (.armPolicy key policy) σ := by
  rw [Shape.armed_arm] at h
  exact room_of_insert h

theorem fits_wlInsert {cidr : Cidr} (h : (σ.setPrefix cidr true).listed.ncard ≤ cap.prefixes) :
    cap.Fits (.wlInsert cidr) σ := by
  rw [Shape.listed_insert] at h
  exact room_of_insert h

/-- One armed flow takes one entry of each map at most. -/
theorem holdsFlows_armedFlow {key : LimitKey} {policy : LimitPolicy} (policies : 1 ≤ cap.policies)
    (artifacts : ∀ a, 1 ≤ cap.artifacts a) :
    cap.HoldsFlows (Dataplane.armedFlow key policy).shape := by
  have one : ∀ {s : Set LimitKey} {n : ℕ}, 1 ≤ n → (∀ k ∈ s, k = key) → s.ncard ≤ n :=
    fun hn hs => (Set.ncard_le_ncard hs).trans ((Set.ncard_singleton key).le.trans hn)
  refine ⟨one policies ?_, fun a => one (artifacts a) ?_⟩
  · intro k hk
    by_contra hne
    simp [Shape.armed, Dataplane.shape, Dataplane.armedFlow, hne] at hk
  · intro k hk
    by_contra hne
    cases a <;> cases hart : artifactOf policy.algorithm <;>
      simp [Shape.holding, Dataplane.shape, Dataplane.hasArtifact, Dataplane.armedFlow, hart,
        hne] at hk

end Capacity

end VmWatcher
