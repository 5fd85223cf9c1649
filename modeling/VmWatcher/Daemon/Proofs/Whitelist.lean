import VmWatcher.Core.Proofs.Prefixes
import VmWatcher.Daemon.Proofs.Agreement
import VmWatcher.Daemon.Proofs.Room
import VmWatcher.Ebpf.Trie

/-!
# The whitelist at every instant of a reload

While a reload swaps prefixes, the trie holds all prefixes of the old or all prefixes of
the new configuration at every instant, on the way there and on the way back, and
nothing but prefixes of the two.
-/

namespace VmWatcher

open OpProg

/-! ### All prefixes of one configuration -/

/-- All of these prefixes are in the trie. -/
def Shape.HasAll (cs : List Cidr) (σ : Shape) : Prop := ∀ c ∈ cs, σ.whitelisted c = true

/-- All prefixes of the old or all prefixes of the new configuration are in the trie. -/
def Shape.Covered (oldPrefixes newPrefixes : List Cidr) (σ : Shape) : Prop :=
  σ.HasAll oldPrefixes ∨ σ.HasAll newPrefixes

/-- What the operation removes is missed by neither configuration that is complete. -/
def KeepsCovered (oldPrefixes newPrefixes : List Cidr) (op : MapOp) (σ : Shape) : Prop :=
  ∀ c, op = .wlRemove c →
    (c ∉ newPrefixes ∧ σ.HasAll newPrefixes) ∨ (c ∉ oldPrefixes ∧ σ.HasAll oldPrefixes)

section Covered

variable {oldPrefixes newPrefixes cs : List Cidr} {σ : Shape} {op : MapOp}

theorem Shape.HasAll.exec (h : σ.HasAll cs) (kept : ∀ c, op = .wlRemove c → c ∉ cs) :
    (Shape.exec op σ).2.HasAll cs := by
  intro c hc
  cases op with
  | wlInsert cidr =>
    by_cases heq : c = cidr
    · simp [Shape.exec, Shape.setPrefix, heq]
    · simpa [Shape.exec, Shape.setPrefix, heq] using h c hc
  | wlRemove cidr =>
    have hne : c ≠ cidr := fun heq => kept cidr rfl (heq ▸ hc)
    simpa [Shape.exec, Shape.setPrefix, hne] using h c hc
  | getPolicy key | armPolicy key policy | disarmPolicy key | writeFreshState key algorithm
  | clearState key algorithm | clearPolicer key => exact h c hc

theorem Shape.Covered.exec (h : σ.Covered oldPrefixes newPrefixes)
    (keeps : KeepsCovered oldPrefixes newPrefixes op σ) :
    (Shape.exec op σ).2.Covered oldPrefixes newPrefixes := by
  by_cases hop : ∃ c, op = .wlRemove c
  · obtain ⟨c, rfl⟩ := hop
    have other : ∀ {cs : List Cidr}, c ∉ cs → ∀ c', MapOp.wlRemove c = .wlRemove c' → c' ∉ cs := by
      rintro cs hc c' heq
      cases heq
      exact hc
    rcases keeps c rfl with ⟨hc, hall⟩ | ⟨hc, hall⟩
    · exact Or.inr (hall.exec (other hc))
    · exact Or.inl (hall.exec (other hc))
  · have none : ∀ {cs : List Cidr} c, op = .wlRemove c → c ∉ cs := fun c heq => absurd ⟨c, heq⟩ hop
    exact h.imp (·.exec none) (·.exec none)

/-- The flows, and no prefix. -/
def flowsOnly : RollbackTarget → Prop
  | .flow _ => True
  | .pref _ => False

/-- An operation on a flow removes no prefix. -/
theorem Touches.keepsCovered (h : Touches flowsOnly op σ) :
    KeepsCovered oldPrefixes newPrefixes op σ := by
  intro c same
  subst same
  exact h.elim

theorem Touches.whitelisted (h : Touches flowsOnly op σ) :
    (Shape.exec op σ).2.whitelisted = σ.whitelisted :=
  funext fun _ => exec_whitelisted_of_touches h id

/-! ### On the way there -/

theorem applyWhitelistAdditions_lists (cs : List Cidr) (journal : TxJournal) (σ : Shape) :
    Tx.wp Shape.exec (KeepsCovered oldPrefixes newPrefixes) (applyWhitelistAdditions cs)
      (fun r _ σ' => r.isOk → ∀ c, σ'.whitelisted c = true ↔ σ.whitelisted c = true ∨ c ∈ cs)
      journal σ := by
  induction cs generalizing journal σ with
  | nil =>
    intro _ c
    simp
  | cons c cs ih =>
    rw [applyWhitelistAdditions, Tx.wp_perform_bind]
    refine ⟨fun _ h => MapOp.noConfusion h, ?_, fun _ => Tx.not_ok⟩
    rw [Tx.wp_journaled_bind]
    apply Tx.wp_mono (ih _ _)
    intro r _ σ' h ok x
    rw [h ok x]
    by_cases hx : x = c
    · simp [Shape.exec, Shape.setPrefix, hx]
    · simp [Shape.exec, Shape.setPrefix, hx]

theorem applyWhitelistRemovals_lists (cs : List Cidr) (journal : TxJournal) (σ : Shape)
    (hcs : ∀ c ∈ cs, c ∉ newPrefixes) (hall : σ.HasAll newPrefixes) :
    Tx.wp Shape.exec (KeepsCovered oldPrefixes newPrefixes) (applyWhitelistRemovals cs)
      (fun r _ σ' => r.isOk → ∀ c, σ'.whitelisted c = true ↔ σ.whitelisted c = true ∧ c ∉ cs)
      journal σ := by
  induction cs generalizing journal σ with
  | nil =>
    intro _ c
    simp
  | cons c cs ih =>
    obtain ⟨hc, hcs⟩ := List.forall_mem_cons.mp hcs
    have next : (Shape.exec (.wlRemove c) σ).2.HasAll newPrefixes := by
      apply hall.exec
      intro c' heq
      cases heq
      exact hc
    rw [applyWhitelistRemovals, Tx.wp_perform_bind]
    refine ⟨?_, ?_, fun _ => Tx.not_ok⟩
    · intro c' heq
      cases heq
      exact Or.inl ⟨hc, hall⟩
    · rw [Tx.wp_journaled_bind]
      apply Tx.wp_mono (ih _ _ hcs next)
      intro r _ σ' h ok x
      rw [h ok x]
      by_cases hx : x = c
      · simp [Shape.exec, Shape.setPrefix, hx]
      · simp [Shape.exec, Shape.setPrefix, hx]

/-- The limit actions leave the trie alone. -/
theorem runLimitActions_lists (actions : List LimitAction) (journal : TxJournal) (σ : Shape) :
    Tx.wp Shape.exec (KeepsCovered oldPrefixes newPrefixes) (runLimitActions actions)
      (fun _ _ σ' => σ'.whitelisted = σ.whitelisted) journal σ := by
  have anything : journal.Touches fun _ => True :=
    ⟨fun _ _ => trivial, fun _ _ => trivial, fun _ _ => trivial, fun _ _ => trivial⟩
  have touches : Tx.wp Shape.exec (Touches flowsOnly) (runLimitActions actions) _ journal σ :=
    runLimitActions_touches actions σ (fun _ _ => ⟨trivial, trivial⟩) anything
  have keeps : ∀ op (τ : Shape), τ.whitelisted = σ.whitelisted → Touches flowsOnly op τ →
      (Shape.exec op τ).2.whitelisted = σ.whitelisted := fun op τ hτ hop => hop.whitelisted.trans hτ
  refine Tx.wp_weaken (Tx.wp_mono (Tx.wp_keeping keeps touches rfl) fun _ _ _ h => h.2) ?_
  exact fun _ _ hop => hop.keepsCovered

/-- On the way there one of the configurations is complete at every instant, and the end
is the new one. -/
theorem applyReloadSteps_lists (actions : List LimitAction)
    (listed : ∀ c, σ.whitelisted c = true ↔ c ∈ oldPrefixes) :
    Tx.wp Shape.exec (KeepsCovered oldPrefixes newPrefixes)
      (applyReloadSteps actions oldPrefixes newPrefixes)
      (fun r _ σ' => r.isOk → ∀ c, σ'.whitelisted c = true ↔ c ∈ newPrefixes) {} σ := by
  rw [applyReloadSteps, Tx.wp_bind, Tx.wp_context]
  refine Tx.wp_mono (applyWhitelistAdditions_lists _ {} σ) fun r journal₁ σ₁ added => ?_
  cases r with
  | error e => exact Tx.not_ok
  | ok _ =>
    have both : ∀ c, σ₁.whitelisted c = true ↔ c ∈ oldPrefixes ∨ c ∈ newPrefixes := by
      intro c
      rw [added rfl c, listed c, List.mem_filter, decide_eq_true_eq]
      by_cases hold : c ∈ oldPrefixes <;> simp [hold]
    change Tx.wp _ _ (runLimitActions actions >>= _) _ _ _
    rw [Tx.wp_bind]
    refine Tx.wp_mono (runLimitActions_lists actions journal₁ σ₁) fun r journal₂ σ₂ same => ?_
    cases r with
    | error e => exact Tx.not_ok
    | ok _ =>
      have all : σ₂.HasAll newPrefixes := fun c hc => by
        rw [same]
        exact (both c).mpr (Or.inr hc)
      change Tx.wp _ _ (Tx.context _ _) _ _ _
      rw [Tx.wp_context]
      refine Tx.wp_mono (applyWhitelistRemovals_lists _ journal₂ σ₂ (?_) all)
        fun r _ σ₃ removed => ?_
      · intro c hc
        simpa using (List.mem_filter.mp hc).2
      · cases r with
        | error e => exact Tx.not_ok
        | ok _ =>
          intro _ c
          rw [removed rfl c, same, both c, List.mem_filter, decide_eq_true_eq]
          by_cases hnew : c ∈ newPrefixes <;> simp [hnew]

/-! ### On the way back -/

/-- The playback of the limit records leaves the trie alone. -/
theorem playBack_flows_whitelisted {ρ : Type} {rollback : ρ → RollbackReport → Prog RollbackReport}
    (one : ∀ rec report σ, wp Shape.exec (Touches flowsOnly) (rollback rec report)
      (fun _ _ _ => True) σ)
    {recs : List ρ} {report report' : RollbackReport} {σ' : Shape}
    {evs : List (Event MapOp AnyError Shape)}
    (run : Runs Shape.exec (playBack rollback recs report) σ evs report' σ') :
    (∀ ev ∈ evs, ev.after.whitelisted = σ.whitelisted) ∧ σ'.whitelisted = σ.whitelisted := by
  have keeps : ∀ op (τ : Shape), τ.whitelisted = σ.whitelisted → Touches flowsOnly op τ →
      (Shape.exec op τ).2.whitelisted = σ.whitelisted := fun op τ hτ hop => hop.whitelisted.trans hτ
  exact wp_invariant keeps rfl (playBack_wp recs report σ fun rec _ => one rec) run

theorem Shape.Covered.congr {τ : Shape} (h : σ.Covered oldPrefixes newPrefixes)
    (same : τ.whitelisted = σ.whitelisted) : τ.Covered oldPrefixes newPrefixes := by
  unfold Covered HasAll at h ⊢
  rwa [same]

/-- On the way back, when nothing fails, one of the configurations is complete at every
instant. -/
theorem rollbackJournal_covered {σ₀ σ' : Shape} {journal : TxJournal}
    (listed : ∀ c ∈ oldPrefixes, σ₀.whitelisted c = true) (back : TakesBack σ₀ journal σ)
    (covered : σ.Covered oldPrefixes newPrefixes) {evs : List (Event MapOp AnyError Shape)}
    {report : RollbackReport} (run : Runs Shape.exec (rollbackJournal journal) σ evs report σ')
    (clean : report.failures = []) :
    ∀ ev ∈ evs, ev.after.Covered oldPrefixes newPrefixes := by
  unfold rollbackJournal at run
  obtain ⟨evs₁, report₁, σ₁, _, installs, run₁, rfl⟩ := run.bind_inv
  obtain ⟨evs₂, report₂, σ₂, _, removes, run₂, rfl⟩ := run₁.bind_inv
  obtain ⟨evs₃, report₃, σ₃, _, inserts, run₃, rfl⟩ := run₂.bind_inv
  obtain ⟨evs₄, report₄, σ₄, _, deletes, run₄, rfl⟩ := run₃.bind_inv
  cases run₄
  obtain ⟨all₁, same₁⟩ := playBack_flows_whitelisted
    (fun _ => rollbackInstall_touches trivial) installs
  obtain ⟨all₂, same₂⟩ := playBack_flows_whitelisted
    (fun _ => rollbackRemove_touches trivial) removes
  have covered₁ : σ₁.Covered oldPrefixes newPrefixes := covered.congr same₁
  have covered₂ : σ₂.Covered oldPrefixes newPrefixes := covered₁.congr same₂
  -- prefixes are put back before any is taken away
  have inserting : wp Shape.exec (KeepsCovered oldPrefixes newPrefixes)
      (playBack rollbackWlRemoved journal.wlRemoved report₂) (fun _ _ _ => True) σ₂ :=
    playBack_wp journal.wlRemoved report₂ σ₂ fun c _ report σ =>
      ⟨nofun, trivial, fun _ => trivial⟩
  have all₃ := (wp_invariant (fun _ _ h keeps => h.exec keeps) covered₂ inserting inserts).1
  -- by then the old ones are complete, since nothing has failed
  obtain ⟨more₃, failures₃, -, done₃⟩ :=
    wp_sound (playBack_restores rollbackWlRemoved_restores journal.wlRemoved report₂ σ₂) inserts
  obtain ⟨more₄, failures₄, -, -⟩ :=
    wp_sound (playBack_restores rollbackWlAdded_restores journal.wlAdded report₃ σ₃) deletes
  have silent : more₃ = [] := by
    rw [failures₄, failures₃] at clean
    exact (List.append_eq_nil_iff.mp (List.append_eq_nil_iff.mp clean).1).2
  have home : ∀ c ∈ oldPrefixes, c ∉ journal.wlAdded ∧ σ₃.whitelisted c = true := by
    intro c hc
    have restored := (back.whitelisted c).trans (listed c hc)
    by_cases hadded : c ∈ journal.wlAdded
    · simp [hadded] at restored
    · refine ⟨hadded, ?_⟩
      rw [done₃ silent, undoAll_setPrefix_whitelisted, same₂, same₁]
      simpa [hadded] using restored
  have deleting : wp Shape.exec (fun op _ => ∀ c, op = .wlRemove c → c ∉ oldPrefixes)
      (playBack rollbackWlAdded journal.wlAdded report₃) (fun _ _ _ => True) σ₃ := by
    refine playBack_wp journal.wlAdded report₃ σ₃ fun c hc report σ => ?_
    refine ⟨?_, trivial, fun _ => trivial⟩
    rintro c' heq hold
    cases heq
    exact (home c hold).1 hc
  have keeps : ∀ op (τ : Shape), τ.HasAll oldPrefixes →
      (∀ c, op = .wlRemove c → c ∉ oldPrefixes) → (Shape.exec op τ).2.HasAll oldPrefixes :=
    fun _ _ h kept => h.exec kept
  have all₄ := (wp_invariant keeps (fun c hc => (home c hc).2) deleting deletes).1
  intro ev hev
  rw [List.append_nil] at hev
  rcases List.mem_append.mp hev with hev | hev
  · exact covered.congr (all₁ ev hev)
  rcases List.mem_append.mp hev with hev | hev
  · exact covered₁.congr (all₂ ev hev)
  rcases List.mem_append.mp hev with hev | hev
  · exact all₃ ev hev
  · exact Or.inl (all₄ ev hev)

/-! ### A whole reload -/

/-- What a reload does to the trie. -/
structure Swaps (oldPrefixes newPrefixes : List Cidr) (evs : List (Event MapOp AnyError Shape))
    (r : Except (AnyError × RollbackReport) Unit) (σ' : Shape) : Prop where
  within : ∀ ev ∈ evs, ev.after.listed ⊆ eitherPrefixes oldPrefixes newPrefixes
  covered : cleanEnd Prod.snd r → ∀ ev ∈ evs, ev.after.Covered oldPrefixes newPrefixes
  accepted : r.isOk → ∀ c, σ'.whitelisted c = true ↔ c ∈ newPrefixes
  rejected : cleanEnd Prod.snd r → r.isOk = false → ∀ c, σ'.whitelisted c = true ↔ c ∈ oldPrefixes

theorem transact_swaps {actions : List LimitAction} {evs : List (Event MapOp AnyError Shape)}
    {r : Except (AnyError × RollbackReport) Unit} {σ' : Shape} (hσ : σ.Settled)
    (listed : ∀ c, σ.whitelisted c = true ↔ c ∈ oldPrefixes)
    (run : Runs Shape.exec (transact (applyReloadSteps actions oldPrefixes newPrefixes)) σ evs r
      σ') : Swaps oldPrefixes newPrefixes evs r σ' := by
  have lists : σ.Lists oldPrefixes newPrefixes :=
    ⟨fun c hc => (listed c).mpr hc, fun c _ hc => Bool.eq_false_iff.mpr fun h => hc ((listed c).mp h)⟩
  have start : σ.Covered oldPrefixes newPrefixes := Or.inl lists.old
  obtain ⟨evs₁, r₁, journal, σ₁, forward, hend⟩ := transact_inv run
  have steps : Tx.wp Shape.exec (KeepsCovered oldPrefixes newPrefixes)
      (applyReloadSteps actions oldPrefixes newPrefixes) _ {} σ :=
    applyReloadSteps_lists actions listed
  obtain ⟨coveredThere, covered₁⟩ := wp_invariant (fun _ _ h keeps => h.exec keeps) start steps
    forward
  have back := (wp_sound (applyReloadSteps_takesBack actions oldPrefixes newPrefixes hσ lists)
    forward).1
  refine ⟨?_, ?_, ?_, ?_⟩
  · intro ev hev c hc
    by_contra hneither
    obtain ⟨hold, hnew⟩ := not_or.mp hneither
    have untouched := (Runs.frame_whitelisted
      (transact_touches (applyReloadSteps_swaps actions σ)) run
      fun hswapped => hswapped (iff_of_false hold hnew)).1 ev hev
    exact hold ((listed c).mp (untouched.symm.trans hc))
  · intro clean
    rcases hend with ⟨-, -, -, rfl⟩ | ⟨e, evs₂, report, -, rfl, playback, rfl⟩
    · exact coveredThere
    · have consistent := (wp_sound (rollbackJournal_restores journal σ₁) playback).1
      have silent : report.failures = [] := List.isEmpty_iff.mp (consistent.symm.trans clean)
      intro ev hev
      rcases List.mem_append.mp hev with hev | hev
      · exact coveredThere ev hev
      · exact rollbackJournal_covered lists.old back covered₁ playback silent ev hev
  · intro ok
    rcases hend with ⟨rfl, -, rfl, -⟩ | ⟨e, evs₂, report, -, rfl, -⟩
    · exact wp_sound steps forward rfl
    · exact Bool.noConfusion ok
  · intro clean failed
    rcases hend with ⟨-, rfl, -⟩ | ⟨e, evs₂, report, -, rfl, playback, -⟩
    · exact Bool.noConfusion failed
    · obtain ⟨-, -, undone⟩ := wp_sound (rollbackJournal_restores journal σ₁) playback
      rw [undone clean, back.undo_eq]
      exact listed

end Covered

/-! ### Addresses -/

/-- The address lies in a range of the configuration. -/
def ValidatedConfig.covers (cfg : ValidatedConfig) (ipv4 : UInt32) : Prop :=
  ∃ r ∈ cfg.ranges, r.inner.contains ipv4 = true

theorem mem_prefixSet {cfg : ValidatedConfig} {c : Cidr} :
    c ∈ prefixSet cfg ↔ ∃ r ∈ cfg.ranges, c ∈ r.inner.cidrs := List.mem_flatMap

theorem prefixSet_covers (cfg : ValidatedConfig) (ipv4 : UInt32) :
    (∃ c ∈ prefixSet cfg, c.Covers ipv4) ↔ cfg.covers ipv4 := by
  constructor
  · intro h
    obtain ⟨c, hc, covers⟩ := h
    obtain ⟨r, hr, hc⟩ := mem_prefixSet.mp hc
    exact ⟨r, hr, (IpRange.cidrs_covers r.inner ipv4).mp ⟨c, hc, covers⟩⟩
  · intro h
    obtain ⟨r, hr, contains⟩ := h
    obtain ⟨c, hc, covers⟩ := (IpRange.cidrs_covers r.inner ipv4).mpr contains
    exact ⟨c, mem_prefixSet.mpr ⟨r, hr, hc⟩, covers⟩

theorem prefixSet_matches (host : ByteOrder) {cfg : ValidatedConfig} {c : Cidr}
    (hc : c ∈ prefixSet cfg) (ipv4 : UInt32) :
    (trieKey host c).Matches host ⟨32, host.toBe ipv4⟩ ↔ c.Covers ipv4 := by
  obtain ⟨r, -, hc⟩ := mem_prefixSet.mp hc
  exact trieKey_matches_iff host c ipv4 (r.inner.cidrs_aligned c hc).prefixLen_le

/-- With every prefix of a configuration in the trie, the lookup finds its addresses. -/
theorem Dataplane.monitors_of_hasAll (host : ByteOrder) {d : Dataplane} {cfg : ValidatedConfig}
    {cs : List Cidr} (prefixes : ∀ c, c ∈ cs ↔ c ∈ prefixSet cfg) (all : d.shape.HasAll cs)
    {ipv4 : UInt32} (covers : cfg.covers ipv4) : d.monitors host ipv4 := by
  obtain ⟨c, hc, covers⟩ := (prefixSet_covers cfg ipv4).mpr covers
  exact ⟨c, all c ((prefixes c).mpr hc), (prefixSet_matches host hc ipv4).mpr covers⟩

/-- The lookup finds an address through a prefix of a configuration that covers it. -/
theorem Dataplane.covers_of_monitors (host : ByteOrder) {d : Dataplane} {ipv4 : UInt32}
    (monitors : d.monitors host ipv4) : ∃ c, d.monitoredIps c = true ∧
      ∀ cfg : ValidatedConfig, c ∈ prefixSet cfg → cfg.covers ipv4 := by
  obtain ⟨c, hc, found⟩ := monitors
  refine ⟨c, hc, fun cfg hcfg => (prefixSet_covers cfg ipv4).mp ⟨c, hcfg, ?_⟩⟩
  exact (prefixSet_matches host hcfg ipv4).mp found

theorem Dataplane.monitors_iff_covers (host : ByteOrder) {d : Dataplane} {cfg : ValidatedConfig}
    (filled : ∀ c, d.monitoredIps c = true ↔ c ∈ prefixSet cfg) (ipv4 : UInt32) :
    d.monitors host ipv4 ↔ cfg.covers ipv4 := by
  constructor
  · intro monitors
    obtain ⟨c, hc, covers⟩ := covers_of_monitors host monitors
    exact covers cfg ((filled c).mp hc)
  · exact monitors_of_hasAll host (fun _ => Iff.rfl) fun c hc => (filled c).mpr hc

/-! ### Runs -/

/-- A tick leaves the trie alone. -/
theorem applyEachTickAction_lists (actions : List LimitAction) {limiter limiter' : Limiter}
    {failures : List TickActionFailure} {σ σ' : Shape} {evs : List (Event MapOp AnyError Shape)}
    (run : Runs Shape.exec (applyEachTickAction limiter actions) σ evs (limiter', failures) σ') :
    σ'.whitelisted = σ.whitelisted := by
  induction actions generalizing limiter limiter' failures σ evs with
  | nil =>
    cases run
    rfl
  | cons action actions ih =>
    obtain ⟨evs₁, ⟨limiter₁, failures₁⟩, σ₁, _, one, rest, -⟩ := run.bind_inv
    obtain ⟨evs₂, ⟨limiter₂, failures₂⟩, σ₂, _, others, last, -⟩ := rest.bind_inv
    cases last
    apply (ih others).trans
    obtain ⟨evs₃, r, σ₃, _, transaction, finish, -⟩ := one.bind_inv
    have same : σ₁ = σ₃ := by
      cases r <;> cases finish <;> rfl
    have touches : wp Shape.exec (Touches flowsOnly) (transact (runLimitActions [action]))
        (fun _ _ _ => True) σ :=
      transact_touches (runLimitActions_touches _ σ (fun _ _ => ⟨trivial, trivial⟩) .empty)
    subst same
    exact funext fun c => (Runs.frame_whitelisted touches transaction id).2

/-- The daemon has started with the prefixes of its configuration in the trie. -/
structure System.StartsFilled (s : System) : Prop where
  starts : s.Starts
  filled : ∀ c, s.maps.monitoredIps c = true ↔ c ∈ prefixSet s.engine.config

namespace System.Reachable

variable {reaches : RollingWindow → ℕ → Bool} {s : System} {clean : Bool}

/-- What a reload does to a trie that holds the prefixes of the old configuration. -/
theorem reload_swaps (h : Reachable reaches StartsFilled s true)
    (filled : ∀ c, s.maps.monitoredIps c = true ↔ c ∈ prefixSet s.engine.config)
    {cfg : ValidatedConfig} {plan : ReloadPlan} {oldPrefixes newPrefixes : List Cidr}
    (old : Visits oldPrefixes (· ∈ prefixSet s.engine.config))
    {evs : List (Event MapOp AnyError Dataplane)} {engine : Engine}
    {r : Except ReloadApplyError Unit} {maps : Dataplane}
    (run : Runs MapOp.exec (applyAndCommit s.engine oldPrefixes newPrefixes plan cfg) s.maps evs
      (engine, r) maps) :
    ∃ r', Swaps oldPrefixes newPrefixes (evs.map (Event.map Dataplane.shape)) r' maps.shape ∧
      cleanEnd Prod.snd r' = cleanEnd ReloadApplyError.report r ∧
      engine.config = if r'.isOk then cfg else s.engine.config := by
  have listed : ∀ c, s.maps.shape.whitelisted c = true ↔ c ∈ oldPrefixes :=
    fun c => (filled c).trans (old.mem_iff c).symm
  have settled := (h.agrees fun _ hs => hs.starts).settled rfl
  obtain ⟨evs₁, r', maps₁, evs₂, transaction, rest, rfl⟩ := run.bind_inv
  have swaps := transact_swaps settled listed (Dataplane.runs_shape transaction)
  cases r' with
  | ok _ =>
    cases rest
    rw [List.append_nil]
    exact ⟨_, swaps, rfl, rfl⟩
  | error e =>
    cases rest
    rw [List.append_nil]
    exact ⟨_, swaps, rfl, rfl⟩

/-- As long as no rollback step has failed the trie holds the prefixes of the visible
configuration and no others. -/
theorem trie_filled (h : Reachable reaches StartsFilled s clean) (hclean : clean = true) :
    ∀ c, s.maps.monitoredIps c = true ↔ c ∈ prefixSet s.engine.config := by
  induction h with
  | start hs => exact hs.filled
  | tick _ _ run ih =>
    obtain ⟨before, -⟩ := Bool.and_eq_true_iff.mp hclean
    intro c
    have same := applyEachTickAction_lists _ (Dataplane.runs_shape run)
    exact (iff_of_eq (congrArg (· c = true) same)).trans (ih before c)
  | reload prior _ _ _ old new run ih =>
    obtain ⟨rfl, clean⟩ := Bool.and_eq_true_iff.mp hclean
    obtain ⟨r', swaps, hend, hconfig⟩ := prior.reload_swaps (ih rfl) old run
    intro c
    rw [hconfig]
    cases hr : r'.isOk with
    | true =>
      rw [if_pos rfl]
      exact (swaps.accepted hr c).trans (new.mem_iff c)
    | false =>
      rw [if_neg Bool.false_ne_true]
      exact (swaps.rejected (hend.trans clean) hr c).trans (old.mem_iff c)

end System.Reachable

/-- Between reloads the lookup finds exactly the addresses of the visible configuration.
During a reload no address of both configurations is missed, none of neither is found, and
the trie holds no more prefixes than the reload was checked for. -/
theorem whitelist_right_at_every_instant (host : ByteOrder)
    {reaches : RollingWindow → ℕ → Bool} {s : System}
    (h : System.Reachable reaches System.StartsFilled s true) :
    (∀ ipv4, s.maps.monitors host ipv4 ↔ s.engine.config.covers ipv4) ∧
    ∀ (startup : Startup) (cfg : ValidatedConfig) (now : ℕ) (limited : List FlowKey)
      (plan : ReloadPlan) (oldPrefixes newPrefixes : List Cidr)
      (evs : List (Event MapOp AnyError Dataplane)) (engine : Engine)
      (r : Except ReloadApplyError Unit) (maps : Dataplane),
      cfg.Accepted → Visits limited s.engine.limiter.Limited →
      s.engine.limiter.planReload cfg now limited = .ok plan →
      Visits oldPrefixes (· ∈ prefixSet s.engine.config) →
      Visits newPrefixes (· ∈ prefixSet cfg) →
      Runs MapOp.exec (applyAndCommit s.engine oldPrefixes newPrefixes plan cfg) s.maps evs
        (engine, r) maps →
      cleanEnd ReloadApplyError.report r = true →
      (∀ ev ∈ evs,
        (∀ ipv4, s.engine.config.covers ipv4 → cfg.covers ipv4 → ev.after.monitors host ipv4) ∧
        (∀ ipv4, ev.after.monitors host ipv4 → s.engine.config.covers ipv4 ∨ cfg.covers ipv4) ∧
        {c | ev.after.monitoredIps c = true}.ncard ≤ whitelistPeak oldPrefixes newPrefixes ∧
        (checkReload startup s.engine.config cfg oldPrefixes newPrefixes = .ok () →
          {c | ev.after.monitoredIps c = true}.ncard ≤ startup.whitelistCapacity)) ∧
      ∀ ipv4, maps.monitors host ipv4 ↔ engine.config.covers ipv4 := by
  have filled := h.trie_filled rfl
  refine ⟨Dataplane.monitors_iff_covers host filled, ?_⟩
  intro startup cfg now limited plan oldPrefixes newPrefixes evs engine r maps accepted visits
    hplan old new run clean
  obtain ⟨r', swaps, hend, -⟩ := h.reload_swaps filled old run
  have next := h.reload accepted visits hplan old new run
  rw [clean] at next
  refine ⟨fun ev hev => ?_, Dataplane.monitors_iff_covers host (next.trie_filled rfl)⟩
  have hshape : ev.map Dataplane.shape ∈ evs.map (Event.map Dataplane.shape) :=
    List.mem_map_of_mem hev
  have within := swaps.within _ hshape
  have bound : {c | ev.after.monitoredIps c = true}.ncard ≤
      whitelistPeak oldPrefixes newPrefixes := by
    rw [← ncard_eitherPrefixes]
    exact Set.ncard_le_ncard within
  refine ⟨?_, ?_, bound, ?_⟩
  · intro ipv4 hold hnew
    rcases swaps.covered (hend.trans clean) _ hshape with all | all
    · exact Dataplane.monitors_of_hasAll host old.mem_iff all hold
    · exact Dataplane.monitors_of_hasAll host new.mem_iff all hnew
  · intro ipv4 monitors
    obtain ⟨c, hc, covers⟩ := Dataplane.covers_of_monitors host monitors
    rcases within hc with hc | hc
    · exact Or.inl (covers _ ((old.mem_iff c).mp hc))
    · exact Or.inr (covers _ ((new.mem_iff c).mp hc))
  · intro checked
    exact bound.trans (checkReload_inv checked |>.2.2)

/-- A file with one unlimited range. -/
def rangeFile (range : String) : Config where
  network := ⟨"br0"⟩
  ipRanges := [⟨"vms", range, none, []⟩]

/-- What such a file is parsed to. -/
def rangeConfig (start stop : UInt32) : ValidatedConfig :=
  { Limiter.oneAddress {} with ranges := [⟨⟨"vms", start, stop⟩, {}, []⟩] }

theorem accepted_rangeConfig : (rangeConfig 1 2).Accepted ∧ (rangeConfig 2 3).Accepted := by
  have before : (rangeFile "0.0.0.1-0.0.0.2").parse (fun _ => .error "") =
      .ok (rangeConfig 1 2) := rfl
  have after : (rangeFile "0.0.0.2-0.0.0.3").parse (fun _ => .error "") =
      .ok (rangeConfig 2 3) := rfl
  exact ⟨ValidatedConfig.accepted_of_parse before, ValidatedConfig.accepted_of_parse after⟩

/-- The plan that puts such a configuration in force. -/
def rangePlan (start stop : UInt32) : ReloadPlan :=
  ⟨[], [⟨start, stop, {}⟩], Table.empty, [], []⟩

/-- The daemon started on two addresses. -/
def rangeSystem : System where
  engine := ⟨(Limiter.new 1).commitReload (rangePlan 1 2), rangeConfig 1 2, 1⟩
  maps := { Dataplane.empty with monitoredIps := (· ∈ prefixSet (rangeConfig 1 2)) }

theorem rangeSystem_startsFilled : rangeSystem.StartsFilled :=
  ⟨⟨accepted_rangeConfig.1, ⟨0, rangePlan 1 2, rfl, rfl⟩, rfl, rfl, rfl⟩,
    fun _ => decide_eq_true_iff⟩

/-- The range moves up by one address: the address it keeps is found at every instant,
first by a prefix of its own and then by a wider one. -/
theorem whitelist_right_at_every_instant_moved :
    let reload := exec MapOp.exec (applyAndCommit rangeSystem.engine [⟨32, 1⟩, ⟨32, 2⟩] [⟨31, 2⟩]
      (rangePlan 2 3) (rangeConfig 2 3)) (fun _ => none) rangeSystem.maps
    (∀ ev ∈ reload.1, ev.after.monitors .little 2) ∧
      ∀ ipv4, reload.2.2.monitors .little ipv4 ↔ (rangeConfig 2 3).covers ipv4 := by
  intro reload
  have started : System.Reachable RollingWindow.reachesExactly System.StartsFilled rangeSystem true :=
    .start rangeSystem_startsFilled
  have visits : Visits [] rangeSystem.engine.limiter.Limited := Limiter.visits_new 1
  have old : Visits [⟨32, 1⟩, ⟨32, 2⟩] (· ∈ prefixSet rangeSystem.engine.config) :=
    ⟨by decide, fun _ => Iff.rfl⟩
  have new : Visits [⟨31, 2⟩] (· ∈ prefixSet (rangeConfig 2 3)) := ⟨by decide, fun _ => Iff.rfl⟩
  obtain ⟨during, after⟩ := (whitelist_right_at_every_instant .little started).2 ⟨"br0", 4⟩
    (rangeConfig 2 3) 1 [] (rangePlan 2 3) _ _ _ _ _ _ accepted_rangeConfig.2 visits rfl old new
    (runs_exec MapOp.exec _ (fun _ => none) _) rfl
  have kept : (rangeConfig 1 2).covers 2 ∧ (rangeConfig 2 3).covers 2 :=
    ⟨⟨_, List.mem_cons_self, by decide⟩, ⟨_, List.mem_cons_self, by decide⟩⟩
  exact ⟨fun ev hev => (during ev hev).1 2 kept.1 kept.2, after⟩

end VmWatcher
