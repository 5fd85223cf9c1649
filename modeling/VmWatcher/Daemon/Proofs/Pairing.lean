import VmWatcher.Daemon.Proofs.Discipline
import VmWatcher.Ebpf.Proofs.Classifier

/-!
# Policies and the state under them

A packet between its two accesses is paired when the state entry it is about to update was
written fresh for the installation it has read its policy from, and holds what packets
under that policy made of it.

The order of the operations pairs every packet that copies its policy: at that moment the
entry is fresh for the armed installation. What unpairs a packet is fresh state written in
the same map while the packet is between its accesses, and nothing else.
-/

namespace VmWatcher

open OpProg
open LimitLedger (Ordered)

/-! ### Entries of the state maps -/

/-- What one of the state maps holds for a flow. -/
inductive Entry where
  | state (s : LimitState)
  | ring (r : SwlRing)
  deriving DecidableEq

namespace StateArtifacts

def entry (s : StateArtifacts) : Artifact → Entry
  | .state => .state s.state
  | .ring => .ring s.ring

end StateArtifacts

namespace Dataplane

variable {d : Dataplane} {key k : LimitKey} {a a' : Artifact}

/-- The entry of a flow in one of the state maps. -/
def entry (d : Dataplane) (key : LimitKey) : Artifact → Option Entry
  | .state => (d.limitState key).map .state
  | .ring => (d.swlLog key).map .ring

theorem entry_isSome : (d.entry key a).isSome = d.hasArtifact key a := by
  cases a <;> exact Option.isSome_map

/-- The artifacts of a flow read as its entry. -/
theorem entry_artifacts {e : Entry} (h : d.entry key a = some e) :
    (d.artifacts key).entry a = e := by
  cases a with
  | state =>
    obtain ⟨s, hs, rfl⟩ := Option.map_eq_some_iff.mp h
    simp [artifacts, StateArtifacts.entry, hs]
  | ring =>
    obtain ⟨r, hr, rfl⟩ := Option.map_eq_some_iff.mp h
    simp [artifacts, StateArtifacts.entry, hr]

theorem entry_store_self {s : StateArtifacts} :
    (d.store key s a).entry key a = some (s.entry a) := by
  cases a <;> simp [store, entry, StateArtifacts.entry]

theorem entry_store_of_ne {s : StateArtifacts} (other : ¬ (k = key ∧ a' = a)) :
    (d.store key s a).entry k a' = d.entry k a' := by
  rw [not_and] at other
  by_cases same : k = key
  · have ne := other same
    cases a <;> cases a' <;> first | exact absurd rfl ne | rfl
  · cases a <;> cases a' <;> simp [store, entry, same]

end Dataplane

/-! ### The operations of the engine -/

/-- A fresh entry. -/
def Entry.fresh (a : Artifact) : Entry := ({} : StateArtifacts).entry a

section Operations

variable {d : Dataplane} {key k : LimitKey} {algorithm : UInt32} {a : Artifact}

theorem entry_writeFreshState : (MapOp.exec (.writeFreshState key algorithm) d).2.entry k a =
    if k = key ∧ a = artifactOf algorithm then some (.fresh a) else d.entry k a := by
  by_cases ring : algorithm = algoSlidingWindowLog
  · by_cases same : k = key <;> cases a <;>
      simp [MapOp.exec, ring, artifactOf, same, Dataplane.entry, Entry.fresh,
        StateArtifacts.entry]
  · by_cases same : k = key <;> cases a <;>
      simp [MapOp.exec, ring, artifactOf, same, Dataplane.entry, Entry.fresh,
        StateArtifacts.entry]

theorem entry_clearState : (MapOp.exec (.clearState key algorithm) d).2.entry k a =
    if k = key ∧ a = artifactOf algorithm then none else d.entry k a := by
  by_cases ring : algorithm = algoSlidingWindowLog
  · by_cases same : k = key <;> cases a <;>
      simp [MapOp.exec, ring, artifactOf, same, Dataplane.entry]
  · by_cases same : k = key <;> cases a <;>
      simp [MapOp.exec, ring, artifactOf, same, Dataplane.entry]

/-- The ledger follows the maps. -/
theorem exec_ledger (op : MapOp) (history : LimitHistory) :
    LimitLedger.exec op ⟨d.policies, history⟩ =
      ((MapOp.exec op d).1, ⟨(MapOp.exec op d).2.policies, history.note op⟩) := by
  cases op with
  | writeFreshState key algorithm =>
    simp only [LimitLedger.exec, MapOp.exec]
    split_ifs <;> rfl
  | clearState key algorithm =>
    simp only [LimitLedger.exec, MapOp.exec]
    split_ifs <;> rfl
  | _ => rfl

end Operations

/-! ### The two accesses of a packet -/

/-- The entry is what packets under the policy made of a fresh one. -/
def MadeBy (policy : LimitPolicy) (e : Entry) : Prop :=
  ∃ packets, e = ((policer policeArtifacts policy).stateAfter {} packets).entry
    (artifactOf policy.algorithm)

theorem MadeBy.fresh {policy : LimitPolicy} :
    MadeBy policy (.fresh (artifactOf policy.algorithm)) :=
  ⟨[], rfl⟩

/-- The step of a policy is a step of the entry of its algorithm. -/
theorem entry_policeArtifacts {policy : LimitPolicy} {s s' : StateArtifacts} {now lenBytes : ℕ}
    (h : s.entry (artifactOf policy.algorithm) = s'.entry (artifactOf policy.algorithm)) :
    (policeArtifacts policy s now lenBytes).val.1.entry (artifactOf policy.algorithm) =
      (policeArtifacts policy s' now lenBytes).val.1.entry (artifactOf policy.algorithm) := by
  by_cases ring : policy.algorithm = algoSlidingWindowLog
  · simp only [artifactOf, ring, if_true, StateArtifacts.entry, Entry.ring.injEq] at h ⊢
    simp [policeArtifacts_ring ring, h]
  · simp only [artifactOf, ring, if_false, StateArtifacts.entry, Entry.state.injEq] at h ⊢
    simp [policeArtifacts_state ring, h]

theorem MadeBy.police {policy : LimitPolicy} {s : StateArtifacts} {now lenBytes : ℕ}
    (h : MadeBy policy (s.entry (artifactOf policy.algorithm))) :
    MadeBy policy
      ((policeArtifacts policy s now lenBytes).val.1.entry (artifactOf policy.algorithm)) := by
  obtain ⟨packets, made⟩ := h
  refine ⟨packets ++ [⟨now, lenBytes⟩], ?_⟩
  rw [Mealy.stateAfter_concat]
  exact entry_policeArtifacts made

namespace EbpfMaps

variable {inserts : Inserts} {key k : LimitKey} {policy : LimitPolicy} {lenBytes now : ℕ}
variable {m : EbpfMaps} {a : Artifact} {passed : Bool}

theorem readPolicy_limits {ipv4 : UInt32} {direction : UInt8} :
    (m.readPolicy inserts ipv4 direction lenBytes).1.limits = m.limits := by
  unfold readPolicy
  cases m.limits.policies ⟨ipv4, direction⟩ with
  | none => rfl
  | some policy =>
    dsimp only
    split_ifs
    · rfl
    · rfl
    · unfold recordOversized
      cases entryOrInsert m.oversized inserts.oversized direction {} <;> rfl
    · rfl
    · rfl

/-- A packet goes on to its lookup under the armed policy of its flow. -/
theorem readPolicy_policy {ipv4 : UInt32} {direction : UInt8}
    (h : (m.readPolicy inserts ipv4 direction lenBytes).2 = some policy) :
    m.limits.policies ⟨ipv4, direction⟩ = some policy := by
  unfold readPolicy at h
  cases armed : m.limits.policies ⟨ipv4, direction⟩ with
  | none =>
    rw [armed] at h
    cases h
  | some policy' =>
    rw [armed] at h
    dsimp only at h
    split_ifs at h
    exact h

theorem recordVerdict_policies :
    (m.recordVerdict inserts key lenBytes passed).limits.policies = m.limits.policies := by
  unfold recordVerdict
  cases entryOrInsert m.limits.policerStats inserts.policerStats key ⟨0, 0, 0, 0⟩ <;> rfl

theorem recordVerdict_entry :
    (m.recordVerdict inserts key lenBytes passed).limits.entry k a = m.limits.entry k a := by
  unfold recordVerdict
  cases entryOrInsert m.limits.policerStats inserts.policerStats key ⟨0, 0, 0, 0⟩ <;>
    cases a <;> rfl

/-- The second access judges the packet when it finds its entry. -/
theorem policeUnder_eq : m.policeUnder inserts key policy lenBytes now =
    if (policy.algorithm = algoSlidingWindowLog → policy.windowNs ≠ 0) ∧
        m.limits.hasArtifact key (artifactOf policy.algorithm) then
      m.judged inserts key policy lenBytes now
    else (m, false) := by
  unfold policeUnder
  by_cases ring : policy.algorithm = algoSlidingWindowLog
  · rw [if_pos ring, swlPolice_eq ring]
    simp [artifactOf, ring]
  · rw [if_neg ring]
    cases hstate : m.limits.limitState key with
    | none => simp [artifactOf, ring, Dataplane.hasArtifact, hstate]
    | some state =>
      simp [Dataplane.hasArtifact, hstate, judged, policeArtifacts_state ring, Dataplane.store,
        artifactOf, ring, Dataplane.artifacts]

theorem policeUnder_policies :
    (m.policeUnder inserts key policy lenBytes now).1.limits.policies = m.limits.policies := by
  rw [policeUnder_eq]
  split_ifs
  · simp only [judged, recordVerdict_policies]
    cases artifactOf policy.algorithm <;> rfl
  · rfl

theorem policeUnder_entry_of_ne (other : ¬ (k = key ∧ a = artifactOf policy.algorithm)) :
    (m.policeUnder inserts key policy lenBytes now).1.limits.entry k a = m.limits.entry k a := by
  rw [policeUnder_eq]
  split_ifs
  · simp only [judged, recordVerdict_entry]
    exact Dataplane.entry_store_of_ne other
  · rfl

/-- The second access makes of an entry of its policy another one. -/
theorem policeUnder_madeBy {e : Entry}
    (made : ∀ e, m.limits.entry key (artifactOf policy.algorithm) = some e → MadeBy policy e)
    (h : (m.policeUnder inserts key policy lenBytes now).1.limits.entry key
      (artifactOf policy.algorithm) = some e) :
    MadeBy policy e := by
  rw [policeUnder_eq] at h
  split_ifs at h with ready
  · have present := Dataplane.entry_isSome.trans ready.2
    obtain ⟨e₀, h₀⟩ := Option.isSome_iff_exists.mp present
    simp only [judged, recordVerdict_entry, Dataplane.entry_store_self, Option.some.injEq] at h
    have before := made e₀ h₀
    rw [← Dataplane.entry_artifacts h₀] at before
    exact h ▸ before.police
  · exact made e h

end EbpfMaps

/-! ### The history -/

namespace LimitHistory

variable {h : LimitHistory} {key k : LimitKey} {algorithm : UInt32} {a : Artifact}

theorem freshFor_note_of_ne (other : ¬ (k = key ∧ a = artifactOf algorithm)) :
    (h.note (.writeFreshState key algorithm)).freshFor k a = h.freshFor k a := by
  simp only [note, Function.update_apply]
  split_ifs with same
  · subst same
    rw [Function.update_of_ne fun same => other ⟨rfl, same⟩]
  · rfl

theorem freshFor_note_self :
    (h.note (.writeFreshState key algorithm)).freshFor key (artifactOf algorithm) =
      (h.armed key).length := by
  simp [note]

/-- What was armed once stays in the history. -/
theorem armed_note {op : MapOp} {i : ℕ} {policy : LimitPolicy}
    (armed : (h.armed k)[i]? = some policy) : ((h.note op).armed k)[i]? = some policy := by
  cases op with
  | armPolicy key policy' =>
    simp only [note, Function.update_apply]
    split_ifs with same
    · subst same
      exact List.getElem?_append_left (List.getElem?_eq_some_iff.mp armed).1 ▸ armed
    · exact armed
  | _ => exact armed

end LimitHistory

/-- The armed policies and the entries are as the history says. -/
structure Consistent (d : Dataplane) (h : LimitHistory) : Prop where
  /-- The armed policy is the one armed last, on state that was written for it. -/
  armed : ∀ key policy, d.policies key = some policy → ∃ earlier,
    h.armed key = earlier ++ [policy] ∧
      h.freshFor key (artifactOf policy.algorithm) = earlier.length
  /-- An entry is fresh, or made under the installation it was written for. -/
  made : ∀ key a e, d.entry key a = some e → e = .fresh a ∨
    ∃ policy, (h.armed key)[h.freshFor key a]? = some policy ∧
      artifactOf policy.algorithm = a ∧ MadeBy policy e

namespace Consistent

variable {d d' : Dataplane} {h : LimitHistory} {op : MapOp}

/-- An operation that writes neither policies nor state, or only takes some away. -/
theorem shrink (c : Consistent d h)
    (policies : ∀ key policy, d'.policies key = some policy → d.policies key = some policy)
    (entries : ∀ key a e, d'.entry key a = some e → d.entry key a = some e) : Consistent d' h :=
  ⟨fun key policy hp => c.armed key policy (policies key policy hp),
    fun key a e he => c.made key a e (entries key a e he)⟩

theorem arm (c : Consistent d h) {key : LimitKey} {policy : LimitPolicy}
    (fresh : Ordered (.armPolicy key policy) ⟨d.policies, h⟩) :
    Consistent (MapOp.exec (.armPolicy key policy) d).2 (h.note (.armPolicy key policy)) where
  armed k p hp := by
    by_cases same : k = key
    · subst same
      simp only [MapOp.exec, Table.insert_self, Option.some.injEq] at hp
      subst hp
      exact ⟨h.armed k, by simp [LimitHistory.note], fresh⟩
    · simp only [MapOp.exec, Table.insert_of_ne same] at hp
      simpa [LimitHistory.note, same] using c.armed k p hp
  made k a e he := by
    have before : d.entry k a = some e := by cases a <;> exact he
    rcases c.made k a e before with untouched | ⟨p, installed, mine, made⟩
    · exact .inl untouched
    · exact .inr ⟨p, LimitHistory.armed_note installed, mine, made⟩

theorem write (c : Consistent d h) {key : LimitKey} {algorithm : UInt32}
    (unarmed : Ordered (.writeFreshState key algorithm) ⟨d.policies, h⟩) :
    Consistent (MapOp.exec (.writeFreshState key algorithm) d).2
      (h.note (.writeFreshState key algorithm)) where
  armed k p hp := by
    have before : d.policies k = some p := by
      simp only [MapOp.exec] at hp
      split_ifs at hp <;> exact hp
    have other : k ≠ key := by
      intro same
      have none : d.policies key = none := unarmed
      simp [← same, before] at none
    rw [LimitHistory.freshFor_note_of_ne fun same => other same.1]
    exact c.armed k p before
  made k a e he := by
    rw [entry_writeFreshState] at he
    split_ifs at he with written
    · exact .inl (Option.some.inj he).symm
    · rw [LimitHistory.freshFor_note_of_ne written]
      exact c.made k a e he

/-- An operation in order keeps the maps and the history together. -/
theorem exec (c : Consistent d h) (ordered : Ordered op ⟨d.policies, h⟩) :
    Consistent (MapOp.exec op d).2 (h.note op) := by
  cases op with
  | armPolicy key policy => exact c.arm ordered
  | writeFreshState key algorithm => exact c.write ordered
  | disarmPolicy key =>
    refine c.shrink (fun k p hp => ?_) fun k a e he => by cases a <;> exact he
    by_cases same : k = key
    · simp [MapOp.exec, same] at hp
    · simpa [MapOp.exec, same] using hp
  | clearState key algorithm =>
    refine c.shrink (?_) ?_
    · intro k p hp
      simp only [MapOp.exec] at hp
      split_ifs at hp <;> exact hp
    · intro k a e he
      rw [entry_clearState] at he
      split_ifs at he
      exact he
  | getPolicy key => exact c
  | clearPolicer key =>
    exact c.shrink (fun _ _ hp => hp) fun k a e he => by cases a <;> exact he
  | wlInsert cidr => exact c.shrink (fun _ _ hp => hp) fun k a e he => by cases a <;> exact he
  | wlRemove cidr => exact c.shrink (fun _ _ hp => hp) fun k a e he => by cases a <;> exact he

end Consistent

/-! ### Pairing -/

/-- The packet read the policy of this installation, and the entry of its algorithm was last
written fresh for it. -/
def LimitHistory.Reads (h : LimitHistory) (f : InFlight) : Prop :=
  (h.armed f.key)[f.install]? = some f.policy ∧
    h.freshFor f.key (artifactOf f.policy.algorithm) = f.install

namespace Interleaving

/-- The entry that the packet is about to update was written fresh for the installation it
read, and is what packets under its policy made of it. -/
structure PairedFor (s : Interleaving) (f : InFlight) : Prop where
  installation : (s.history.armed f.key)[f.install]? = some f.policy
  entry : ∀ e, s.maps.limits.entry f.key (artifactOf f.policy.algorithm) = some e →
    s.history.freshFor f.key (artifactOf f.policy.algorithm) = f.install ∧ MadeBy f.policy e

/-- Every packet between its accesses is paired. -/
def Paired (s : Interleaving) : Prop := ∀ f ∈ s.inFlight, s.PairedFor f

/-- The engine writes fresh state for a flow while a packet of the flow, whose policy keeps
its state in the same map, is between its accesses. -/
def Rewrites (s : Interleaving) (e : TurnEvent) : Prop :=
  e = .succeed ∧ ∃ key algorithm next, s.engine = .call (.writeFreshState key algorithm) next ∧
    ∃ f ∈ s.inFlight, f.key = key ∧ artifactOf f.policy.algorithm = artifactOf algorithm

/-- What every turn but a rewriting one keeps. -/
structure Sound (s : Interleaving) : Prop where
  ordered : wp LimitLedger.exec Ordered s.engine (fun _ _ _ => True)
    ⟨s.maps.limits.policies, s.history⟩
  consistent : Consistent s.maps.limits s.history
  inFlight : ∀ f ∈ s.inFlight, s.history.Reads f

variable {s t : Interleaving}

theorem Sound.start (m : EbpfMaps) : (start m).Sound where
  ordered := trivial
  consistent := by
    constructor
    · intro key policy armed
      cases armed
    · intro key a e there
      cases a <;> cases there
  inFlight _ mem := absurd mem List.not_mem_nil

/-- In a sound state every packet is paired. -/
theorem Sound.paired (h : s.Sound) : s.Paired := by
  intro f mem
  obtain ⟨installed, fresh⟩ := h.inFlight f mem
  refine ⟨installed, fun e there => ⟨fresh, ?_⟩⟩
  rcases h.consistent.made f.key _ e there with rfl | ⟨policy, written, -, made⟩
  · exact .fresh
  · rw [fresh, installed] at written
    obtain rfl := Option.some.inj written
    exact made

/-! ### One turn -/

theorem Sound.succeed (h : s.Sound) {op : MapOp}
    {next : Except AnyError op.Res → Prog (Except (AnyError × RollbackReport) Unit)}
    (engine : s.engine = .call op next) (free : ¬ s.Rewrites .succeed) :
    Sound { s with
      engine := next (.ok (MapOp.exec op s.maps.limits).1)
      maps.limits := (MapOp.exec op s.maps.limits).2
      history := s.history.note op } := by
  have ordered := h.ordered
  rw [engine, wp_call] at ordered
  obtain ⟨now, later, -⟩ := ordered
  rw [exec_ledger] at later
  refine ⟨later, h.consistent.exec now, ?_⟩
  intro f mem
  obtain ⟨installed, fresh⟩ := h.inFlight f mem
  refine ⟨LimitHistory.armed_note installed, ?_⟩
  cases op with
  | writeFreshState key algorithm =>
    rw [LimitHistory.freshFor_note_of_ne]
    · exact fresh
    · intro same
      exact free ⟨rfl, key, algorithm, next, engine, f, mem, same⟩
  | _ => exact fresh

theorem Sound.fail (h : s.Sound) {op : MapOp}
    {next : Except AnyError op.Res → Prog (Except (AnyError × RollbackReport) Unit)}
    (engine : s.engine = .call op next) (error : AnyError) :
    Sound { s with engine := next (.error error) } := by
  have ordered := h.ordered
  rw [engine, wp_call] at ordered
  exact ⟨ordered.2.2 error, h.consistent, h.inFlight⟩

/-- A packet reads the installation that is armed, and finds its entry fresh for it. -/
theorem Sound.reads (h : s.Sound) {f : InFlight}
    (armed : s.maps.limits.policies f.key = some f.policy)
    (install : f.install = (s.history.armed f.key).length - 1) : s.history.Reads f := by
  obtain ⟨earlier, all, fresh⟩ := h.consistent.armed f.key f.policy armed
  rw [all, List.length_append, List.length_singleton, Nat.add_sub_cancel] at install
  refine ⟨?_, fresh.trans install.symm⟩
  rw [all, install]
  exact List.getElem?_concat_length

theorem Sound.arrive (h : s.Sound) (inserts : Inserts) (ipv4 : UInt32) (direction : UInt8)
    (lenBytes : ℕ) (hs : s.step (.arrive inserts ipv4 direction lenBytes) = some t) :
    t.Sound := by
  simp only [step, Option.some.injEq] at hs
  subst hs
  refine ⟨?_, ?_, ?_⟩
  · simpa only [EbpfMaps.readPolicy_limits] using h.ordered
  · simpa only [EbpfMaps.readPolicy_limits] using h.consistent
  · intro f mem
    rcases List.mem_append.mp mem with mem | mem
    · exact h.inFlight f mem
    · rw [Option.mem_toList, Option.map_eq_some_iff] at mem
      obtain ⟨policy, copied, rfl⟩ := mem
      exact h.reads (EbpfMaps.readPolicy_policy copied) rfl

theorem Sound.update (h : s.Sound) {inserts : Inserts} {index now : ℕ} {f : InFlight}
    (found : s.inFlight[index]? = some f) :
    Sound { s with
      maps := (s.maps.policeUnder inserts f.key f.policy f.lenBytes now).1
      inFlight := s.inFlight.eraseIdx index } := by
  have mem : f ∈ s.inFlight := List.mem_of_getElem? found
  obtain ⟨installed, fresh⟩ := h.inFlight f mem
  refine ⟨?_, ⟨?_, ?_⟩, ?_⟩
  · simpa only [EbpfMaps.policeUnder_policies] using h.ordered
  · simpa only [EbpfMaps.policeUnder_policies] using h.consistent.armed
  · intro k a e he
    by_cases mine : k = f.key ∧ a = artifactOf f.policy.algorithm
    · obtain ⟨rfl, rfl⟩ := mine
      have made : MadeBy f.policy e :=
        EbpfMaps.policeUnder_madeBy (fun e there => ((h.paired f mem).entry e there).2) he
      exact .inr ⟨f.policy, by rw [fresh, installed], rfl, made⟩
    · rw [EbpfMaps.policeUnder_entry_of_ne mine] at he
      exact h.consistent.made k a e he
  · intro f' mem'
    exact h.inFlight f' (List.eraseIdx_subset mem')

/-- Every turn that is not rewriting keeps the soundness. -/
theorem Sound.step (h : s.Sound) {e : TurnEvent} (hs : s.step e = some t)
    (free : ¬ s.Rewrites e) : t.Sound := by
  cases e with
  | begin transaction =>
    simp only [Interleaving.step] at hs
    split at hs
    · split_ifs at hs with separate
      obtain rfl := Option.some.inj hs
      exact ⟨Transaction.ordered separate _, h.consistent, h.inFlight⟩
    · cases hs
  | succeed =>
    simp only [Interleaving.step] at hs
    split at hs
    · cases hs
    · next op next engine =>
      obtain rfl := Option.some.inj hs
      exact h.succeed engine free
  | fail error =>
    simp only [Interleaving.step] at hs
    split at hs
    · cases hs
    · next op next engine =>
      obtain rfl := Option.some.inj hs
      exact h.fail engine error
  | arrive inserts ipv4 direction lenBytes => exact h.arrive inserts ipv4 direction lenBytes hs
  | update inserts index now =>
    simp only [Interleaving.step] at hs
    split at hs
    · cases hs
    · next f found =>
      obtain rfl := Option.some.inj hs
      exact h.update found

/-- A rewriting turn unpairs the packet. -/
theorem Sound.unpaired (h : s.Sound) {e : TurnEvent} (hs : s.step e = some t)
    (rewrites : s.Rewrites e) : ¬ t.Paired := by
  obtain ⟨rfl, key, algorithm, next, engine, f, mem, rfl, same⟩ := rewrites
  simp only [Interleaving.step, engine, Option.some.injEq] at hs
  subst hs
  intro paired
  have written : (MapOp.exec (.writeFreshState f.key algorithm) s.maps.limits).2.entry f.key
      (artifactOf f.policy.algorithm) = some (.fresh (artifactOf f.policy.algorithm)) := by
    rw [entry_writeFreshState, if_pos ⟨rfl, same⟩]
  obtain ⟨fresh, -⟩ := (paired f mem).entry _ written
  rw [same, LimitHistory.freshFor_note_self] at fresh
  have before := (List.getElem?_eq_some_iff.mp (h.inFlight f mem).1).1
  exact absurd fresh (Nat.ne_of_gt before)

/-! ### Runs -/

/-- In a run of the engine and any packets, every packet between its accesses is paired,
exactly when no fresh state is written under one. -/
theorem paired_iff (m : EbpfMaps) (events : List TurnEvent)
    {steps : List (Interleaving × TurnEvent)} {last : Interleaving}
    (run : trace Interleaving.step (start m) events = some (steps, last)) :
    ((∀ p ∈ steps, p.1.Paired) ∧ last.Paired) ↔ ∀ p ∈ steps, ¬ p.1.Rewrites p.2 :=
  trace_good_iff (fun _ h => Sound.paired h) (fun _ _ _ h hs free => Sound.step h hs free)
    (fun _ _ _ h hs rewrites => Sound.unpaired h hs rewrites) (.start m) run

/-- Maps in which nothing is counted. -/
def quiet : EbpfMaps := ⟨.empty, ⟨Table.empty, Table.empty⟩, Table.empty⟩

/-- The limit of 10.0.0.5 is installed, one event for each operation. -/
def install (algorithm : UInt32) (operations : ℕ) : List TurnEvent :=
  .begin (.limits [.install 0x0a000005 dirTx 8000000 1500 algorithm 1000000000]) ::
    List.replicate operations .succeed

/-- A packet of 10.0.0.5 copies its policy. -/
def packet : TurnEvent := .arrive .succeed 0x0a000005 dirTx 1000

theorem paired_iff_undisturbed : ∃ steps last,
    trace Interleaving.step (start quiet)
      (install algoTokenBucket 3 ++ [packet, .update .succeed 0 5000000000]) =
      some (steps, last) ∧
    (((∀ p ∈ steps, p.1.Paired) ∧ last.Paired) ↔ ∀ p ∈ steps, ¬ p.1.Rewrites p.2) :=
  ⟨_, _, rfl, paired_iff quiet
    (install algoTokenBucket 3 ++ [packet, .update .succeed 0 5000000000]) rfl⟩

/-- A packet copies the policy of a token bucket, and the flow is switched to GCRA before it
looks up its state. It leaves its tokens where GCRA reads its TAT. -/
theorem tokens_read_as_tat : ∃ steps last,
    trace Interleaving.step (start quiet)
      (install algoTokenBucket 3 ++ packet :: install algoGcra 5) = some (steps, last) ∧
    ¬ last.Paired ∧
    ∃ after, last.step (.update .succeed 0 5000000000) = some after ∧
      (after.maps.limits.policies ⟨0x0a000005, dirTx⟩).map LimitPolicy.algorithm =
        some algoGcra ∧
      (after.maps.limits.limitState ⟨0x0a000005, dirTx⟩).map LimitState.a =
        some (500 * 1000000000) := by
  refine ⟨_, _, rfl, fun paired => ?_, _, rfl, rfl, rfl⟩
  obtain ⟨fresh, -⟩ := (paired _ (List.mem_singleton.mpr rfl)).entry (.state {}) rfl
  exact absurd fresh (by decide)

end Interleaving

end VmWatcher
