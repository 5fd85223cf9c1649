import VmWatcher.Daemon.Attach

/-!
# Attaching converges and leaks no link

Whatever the kernel answers, an attach that fails gives back every link it obtained, and
after a rescan every TAP that was found is attached or waits for its next attempt.
-/

namespace VmWatcher

/-! ### One TAP -/

namespace AttachBackend

variable {B Link : Type}

/-- A step obtains the links it returns, and none when it fails. -/
def Yields {ε α : Type} (handles : B → Handles Link) (links : α → List Link) (s : B) :
    Except ε α × B → Prop
  | (.ok a, s') =>
    (∀ link ∈ links a, ¬ (handles s).obtained link) ∧ handles s' = (handles s).obtain (links a)
  | (.error _, s') => handles s' = handles s

theorem Yields.of_same {ε α : Type} {handles : B → Handles Link} {links : α → List Link} {s s' : B}
    {r : Except ε α × B} (h : Yields handles links s' r) (same : handles s' = handles s) :
    Yields handles links s r := by
  obtain ⟨result, t⟩ := r
  cases result with
  | error e => exact Eq.trans h same
  | ok a =>
    unfold Yields at h ⊢
    rwa [same] at h

/-- A step that was given the ingress link adds the egress link, or gives the one it has
back when it fails. -/
def Completes {ε : Type} (handles : B → Handles Link) (ingress : Link) (s : B) :
    Except ε (Link × Link × QdiscOrigin) × B → Prop
  | (.ok (link, egress, _), s') =>
    link = ingress ∧ ¬ (handles s).obtained egress ∧ handles s' = (handles s).obtain [egress]
  | (.error _, s') => handles s' = (handles s).release [ingress]

/-- A step that returns two fresh links, or has given back the only one it obtained. -/
def Settles {ε : Type} (handles : B → Handles Link) (s : B) :
    Except ε (Link × Link × QdiscOrigin) × B → Prop
  | (.ok (ingress, egress, _), s') =>
    (∀ link ∈ [egress, ingress], ¬ (handles s).obtained link) ∧ egress ≠ ingress ∧
      handles s' = (handles s).obtain [egress, ingress]
  | (.error _, s') =>
    handles s' = handles s ∨ ∃ link, ¬ (handles s).obtained link ∧
      handles s' = ((handles s).obtain [link]).release [link]

/-- The backend's links are the handles: they are fresh, and only a detach releases one. -/
structure Tracks (b : AttachBackend B Link) (handles : B → Handles Link) : Prop where
  attachIngress : ∀ tap s, Yields handles (fun link => [link]) s (b.attachIngress tap s)
  attachEgress : ∀ tap s, Yields handles (fun link => [link]) s (b.attachEgress tap s)
  detachIngress : ∀ link s, handles (b.detachIngress link s) = (handles s).release [link]
  addClsact : ∀ tap s, handles (b.addClsact tap s).2 = handles s

variable {b : AttachBackend B Link} {handles : B → Handles Link} (tracks : b.Tracks handles)
variable (tap : String) (s : B)
include tracks

theorem ensureClsact_handles : handles (b.ensureClsact tap s).2 = handles s := by
  have clsact := tracks.addClsact tap s
  unfold ensureClsact
  split
  · next h => rwa [h] at clsact
  · next h => rwa [h] at clsact
  · next h => rwa [h] at clsact

/-- The ingress hook leaves one link behind, or none. -/
theorem attachFlowIngress_yields :
    Yields handles (fun a => [a.1]) s (b.attachFlowIngress tap s) := by
  have first := tracks.attachIngress tap s
  unfold attachFlowIngress
  rcases hfirst : b.attachIngress tap s with ⟨failure | link, s₁⟩
  · rw [hfirst] at first
    have same : handles s₁ = handles s := first
    cases failure with
    | other => exact same
    | qdiscMissing =>
      have clsact := ensureClsact_handles tracks tap s₁
      rcases hclsact : b.ensureClsact tap s₁ with ⟨e | origin, s₂⟩
      · rw [hclsact] at clsact
        simp only [hclsact]
        exact clsact.trans same
      · rw [hclsact] at clsact
        have retry := (tracks.attachIngress tap s₂).of_same (clsact.trans same)
        rcases hretry : b.attachIngress tap s₂ with ⟨e | link, s₃⟩
        · rw [hretry] at retry
          simp only [hclsact, hretry]
          exact retry
        · rw [hretry] at retry
          simp only [hclsact, hretry]
          exact retry
  · rw [hfirst] at first
    exact first

/-- The egress hook adds a link, or gives the ingress link back. -/
theorem attachFlowEgress_completes (ingress : Link) (origin : QdiscOrigin) :
    Completes handles ingress s (b.attachFlowEgress tap ingress origin s) := by
  have detach : ∀ t : B, handles t = handles s →
      handles (b.detachIngress ingress t) = (handles s).release [ingress] := by
    intro t same
    rw [tracks.detachIngress, same]
  have first := tracks.attachEgress tap s
  unfold attachFlowEgress
  rcases hfirst : b.attachEgress tap s with ⟨failure | link, s₁⟩
  · rw [hfirst] at first
    have same : handles s₁ = handles s := first
    by_cases missing : failure = .qdiscMissing ∧ origin = .notRequired
    · have clsact := ensureClsact_handles tracks tap s₁
      rcases hclsact : b.ensureClsact tap s₁ with ⟨e | origin, s₂⟩
      · rw [hclsact] at clsact
        simp only [missing, and_self, if_true, hclsact]
        exact detach s₂ (clsact.trans same)
      · rw [hclsact] at clsact
        have retry := (tracks.attachEgress tap s₂).of_same (clsact.trans same)
        rcases hretry : b.attachEgress tap s₂ with ⟨e | link, s₃⟩
        · rw [hretry] at retry
          simp only [missing, and_self, if_true, hclsact, hretry]
          exact detach s₃ retry
        · rw [hretry] at retry
          simp only [missing, and_self, if_true, hclsact, hretry]
          exact ⟨rfl, retry.1 link (List.mem_singleton_self link), retry.2⟩
    · simp only [missing, if_false]
      exact detach s₁ same
  · rw [hfirst] at first
    exact ⟨rfl, first.1 link (List.mem_singleton_self link), first.2⟩

/-- Nothing half-attached escapes `attach_flow`. -/
theorem attachFlow_settles : Settles handles s (b.attachFlow tap s) := by
  have first := attachFlowIngress_yields tracks tap s
  unfold attachFlow
  rcases hfirst : b.attachFlowIngress tap s with ⟨e | ⟨ingress, origin⟩, s₁⟩
  · rw [hfirst] at first
    exact Or.inl first
  · rw [hfirst] at first
    obtain ⟨fresh, obtained⟩ := first
    have hfresh : ¬ (handles s).obtained ingress := fresh ingress (List.mem_singleton_self ingress)
    have second := attachFlowEgress_completes tracks tap s₁ ingress origin
    dsimp only
    rcases hsecond : b.attachFlowEgress tap ingress origin s₁ with ⟨e | ⟨link, egress, origin'⟩, s₂⟩
    · rw [hsecond] at second
      refine Or.inr ⟨ingress, hfresh, ?_⟩
      rw [← obtained]
      exact second
    · rw [hsecond] at second
      obtain ⟨rfl, hegress, both⟩ := second
      rw [obtained] at hegress both
      refine ⟨?_, fun same => hegress (Or.inl (by simp [same])), ?_⟩
      · intro l hl
        rcases List.mem_cons.mp hl with rfl | hl
        · exact fun old => hegress (Or.inr old)
        · obtain rfl := List.mem_singleton.mp hl
          exact hfresh
      · rw [both, Handles.obtain_obtain]
        rfl

end AttachBackend

/-! ### The kernel's links -/

namespace Ebpf

theorem attachProg_yields (s : Ebpf) :
    AttachBackend.Yields handles (fun link => [link]) s s.attachProg := by
  unfold attachProg
  split
  · refine ⟨by simp [handles], ?_⟩
    ext link
    · change link < s.links + 1 ↔ link ∈ [s.links] ∨ link < s.links
      rw [List.mem_singleton]
      exact Nat.lt_succ_iff_lt_or_eq.trans or_comm
    · rfl
  · rfl

theorem addClsact_handles (s : Ebpf) : handles s.addClsact.2 = handles s := by
  unfold addClsact
  dsimp only
  split
  · rfl
  · split <;> rfl
  · rfl

end Ebpf

theorem ayaBackend_tracks : ayaBackend.Tracks Ebpf.handles where
  attachIngress _ s := s.attachProg_yields
  attachEgress _ s := s.attachProg_yields
  detachIngress _ _ := rfl
  addClsact _ s := s.addClsact_handles

/-! ### All TAPs -/

namespace AttachManager

/-- The links held for a TAP. -/
def held (m : AttachManager) (name : String) : List LinkId :=
  match m.attached name with
  | none => []
  | some a => [a.egressLink, a.ingressLink]

/-- What holds of the manager between any two steps. -/
structure Ok (m : AttachManager) : Prop where
  keyed : ∀ name a, m.attached name = some a → a.tap.name = name
  links : m.bpf.handles.Accounted m.held

/-- Each attached TAP is one of those found, with the same interface. -/
def AttachedIn (m : AttachManager) (found : List Tap) : Prop :=
  ∀ name a, m.attached name = some a → a.tap.name = name ∧ a.tap ∈ found

/-- Each backoff entry is of a TAP that was found. -/
def BackoffIn (m : AttachManager) (found : List Tap) : Prop :=
  ∀ name b, m.retryBackoff name = some b → ∃ t ∈ found, t.name = name ∧ t.ifindex = b.ifindex

/-- The TAP is attached, or waits for its next attempt. -/
def Served (m : AttachManager) (tap : Tap) : Prop :=
  (∃ a, m.attached tap.name = some a ∧ a.tap = tap) ∨
    ∃ b, m.retryBackoff tap.name = some b ∧ b.ifindex = tap.ifindex

/-! ### The detach loop -/

variable {m : AttachManager} {found : List Tap}

theorem detach_attached (m : AttachManager) (name name' : String) :
    (m.detach name).attached name' = if name' = name then none else m.attached name' := by
  unfold detach
  cases h : m.attached name with
  | none =>
    by_cases hname : name' = name
    · rw [if_pos hname, hname, h]
    · rw [if_neg hname]
  | some att => rfl

/-- A detach forgets at most the TAP's own backoff. -/
theorem detach_backoff {name name' : String} {b : Backoff}
    (h : (m.detach name).retryBackoff name' = some b) : m.retryBackoff name' = some b := by
  unfold detach at h
  cases hatt : m.attached name with
  | none =>
    rw [hatt] at h
    exact h
  | some att =>
    rw [hatt] at h
    by_cases hname : name' = name
    · rw [hname] at h
      simp at h
    · simpa [hname] using h

theorem Ok.detach (h : m.Ok) (name : String) : (m.detach name).Ok where
  keyed name' a ha := by
    rw [detach_attached] at ha
    by_cases hname : name' = name
    · simp [hname] at ha
    · rw [if_neg hname] at ha
      exact h.keyed name' a ha
  links := by
    have after : ∀ name', (m.detach name).held name' = if name' = name then [] else m.held name' := by
      intro name'
      unfold held
      rw [detach_attached]
      by_cases hname : name' = name <;> simp [hname]
    have released : (m.detach name).bpf.handles = m.bpf.handles.release (m.held name) := by
      unfold AttachManager.detach held
      cases m.attached name <;> rfl
    rw [released]
    exact (h.links.free name).congr after

theorem Ok.detachAll (h : m.Ok) (names : List String) : (names.foldl AttachManager.detach m).Ok := by
  induction names generalizing m with
  | nil => exact h
  | cons name names ih => exact ih (h.detach name)

theorem detachAll_attached (names : List String) (m : AttachManager) (name : String) :
    (names.foldl AttachManager.detach m).attached name =
      if name ∈ names then none else m.attached name := by
  induction names generalizing m with
  | nil => simp
  | cons first names ih =>
    rw [List.foldl_cons, ih, detach_attached]
    by_cases hfirst : name = first <;> by_cases hrest : name ∈ names <;> simp [hfirst, hrest]

theorem detachAll_backoff (names : List String) {m : AttachManager} {name : String} {b : Backoff}
    (h : (names.foldl AttachManager.detach m).retryBackoff name = some b) :
    m.retryBackoff name = some b := by
  induction names generalizing m with
  | nil => exact h
  | cons first names ih => exact detach_backoff (ih h)

/-! ### The attach loop -/

/-- What the attach loop does with one TAP. -/
inductive Adds (now : ℕ) (m : AttachManager) (tap : Tap) : AttachManager → Prop where
  | waits : shouldAttempt m.retryBackoff tap now = false → Adds now m tap m
  | fails {e : AttachFlowError} {bpf : Ebpf} : ayaBackend.attachFlow tap.name m.bpf = (.error e, bpf) →
      Adds now m tap { m with bpf, retryBackoff := recordFailure m.retryBackoff tap now }
  | attaches {ingress egress : LinkId} {origin : QdiscOrigin} {bpf : Ebpf} :
      ayaBackend.attachFlow tap.name m.bpf = (.ok (ingress, egress, origin), bpf) →
      Adds now m tap
        { bpf
          attached := m.attached.insert tap.name ⟨tap, ingress, egress, origin⟩
          retryBackoff := m.retryBackoff.remove tap.name }

theorem addTap_adds (now : ℕ) (r : AttachManager × ℕ × ℕ) (tap : Tap) :
    Adds now r.1 tap (addTap now r tap).1 := by
  obtain ⟨m, added, failed⟩ := r
  unfold addTap
  dsimp only
  cases attempt : shouldAttempt m.retryBackoff tap now with
  | false => exact .waits attempt
  | true =>
    rcases hflow : ayaBackend.attachFlow tap.name m.bpf with ⟨e | ⟨ingress, egress, origin⟩, bpf⟩
    · exact .fails hflow
    · exact .attaches hflow

variable {now : ℕ} {tap : Tap} {m' : AttachManager}

theorem Adds.others (h : Adds now m tap m') {name : String} (other : name ≠ tap.name) :
    m'.attached name = m.attached name ∧ m'.retryBackoff name = m.retryBackoff name := by
  cases h with
  | waits _ => exact ⟨rfl, rfl⟩
  | fails _ => exact ⟨rfl, Table.insert_of_ne other⟩
  | attaches _ => exact ⟨Table.insert_of_ne other, Table.remove_of_ne other⟩

theorem failed_ifindex (old : Option Backoff) (tap : Tap) (now : ℕ) :
    (Backoff.failed old tap now).ifindex = tap.ifindex := by
  unfold Backoff.failed
  dsimp only
  split
  · rfl
  · next same => simpa using same

/-- A TAP that is not attached now waits for the end of its backoff. -/
theorem Adds.served (h : Adds now m tap m') : m'.Served tap := by
  cases h with
  | waits waiting =>
    unfold shouldAttempt at waiting
    cases hb : m.retryBackoff tap.name with
    | none => simp [hb] at waiting
    | some b =>
      simp only [hb, Option.all_some, Bool.or_eq_false_iff, decide_eq_false_iff_not, not_not] at waiting
      exact Or.inr ⟨b, hb, waiting.1⟩
  | fails _ => exact Or.inr ⟨_, Table.insert_self, failed_ifindex _ tap now⟩
  | attaches _ => exact Or.inl ⟨_, Table.insert_self, rfl⟩

theorem Adds.attachedIn (h : Adds now m tap m') (hin : m.AttachedIn found) (hmem : tap ∈ found) :
    m'.AttachedIn found := by
  intro name a ha
  by_cases hname : name = tap.name
  · subst hname
    cases h with
    | waits _ => exact hin _ a ha
    | fails _ => exact hin _ a ha
    | attaches _ =>
      obtain rfl := Option.some.inj (Table.insert_self.symm.trans ha)
      exact ⟨rfl, hmem⟩
  · rw [(h.others hname).1] at ha
    exact hin name a ha

theorem Adds.backoffIn (h : Adds now m tap m') (hin : m.BackoffIn found) (hmem : tap ∈ found) :
    m'.BackoffIn found := by
  intro name b hb
  by_cases hname : name = tap.name
  · subst hname
    cases h with
    | waits _ => exact hin _ b hb
    | fails _ =>
      obtain rfl := Option.some.inj (Table.insert_self.symm.trans hb)
      exact ⟨tap, hmem, rfl, (failed_ifindex _ tap now).symm⟩
    | attaches _ => simp at hb
  · rw [(h.others hname).2] at hb
    exact hin name b hb

/-- A TAP is only attached under a free name, and no link is lost on the way. -/
theorem Adds.ok (h : Adds now m tap m') (hok : m.Ok) (free : m.attached tap.name = none) : m'.Ok := by
  have settles := AttachBackend.attachFlow_settles ayaBackend_tracks tap.name m.bpf
  cases h with
  | waits _ => exact hok
  | fails hflow =>
    rw [hflow] at settles
    refine ⟨hok.keyed, ?_⟩
    change Handles.Accounted (Ebpf.handles _) m.held
    rcases settles with same | ⟨link, fresh, back⟩
    · rw [same]
      exact hok.links
    · rw [back]
      exact hok.links.passing (by simpa using fresh) (List.nodup_singleton link)
  | attaches hflow =>
    rename_i ingress egress origin bpf
    rw [hflow] at settles
    obtain ⟨fresh, apart, both⟩ := settles
    constructor
    · intro name a ha
      by_cases hname : name = tap.name
      · subst hname
        obtain rfl := Option.some.inj (Table.insert_self.symm.trans ha)
        rfl
      · exact hok.keyed name a ((Table.insert_of_ne hname).symm.trans ha)
    · change Handles.Accounted bpf.handles _
      rw [both]
      have empty : m.held tap.name = [] := by simp [held, free]
      apply (hok.links.hold empty fresh (by simpa using apart)).congr
      intro name
      by_cases hname : name = tap.name
      · simp [held, hname]
      · simp [held, hname]

/-- What the attach loop leaves when it is done with the TAPs. -/
structure Attached (found : List Tap) (m : AttachManager) (taps : List Tap) (m' : AttachManager) :
    Prop where
  ok : m'.Ok
  attachedIn : m'.AttachedIn found
  backoffIn : m'.BackoffIn found
  served : ∀ tap ∈ taps, m'.Served tap
  others : ∀ name, name ∉ taps.map Tap.name →
    m'.attached name = m.attached name ∧ m'.retryBackoff name = m.retryBackoff name

theorem addAll_attached {taps : List Tap} (distinct : (taps.map Tap.name).Nodup)
    (sub : ∀ tap ∈ taps, tap ∈ found) (now : ℕ) (r : AttachManager × ℕ × ℕ) (hok : r.1.Ok)
    (hattached : r.1.AttachedIn found) (hbackoff : r.1.BackoffIn found)
    (free : ∀ tap ∈ taps, r.1.attached tap.name = none) :
    Attached found r.1 taps (taps.foldl (addTap now) r).1 := by
  induction taps generalizing r with
  | nil => exact ⟨hok, hattached, hbackoff, by simp, fun _ _ => ⟨rfl, rfl⟩⟩
  | cons tap taps ih =>
    obtain ⟨hfresh, hrest⟩ := List.nodup_cons.mp distinct
    have adds := addTap_adds now r tap
    have hmem : tap ∈ found := sub tap List.mem_cons_self
    have other : ∀ t ∈ taps, t.name ≠ tap.name :=
      fun t ht heq => hfresh (heq ▸ List.mem_map_of_mem ht)
    have rest := ih hrest (fun t ht => sub t (List.mem_cons_of_mem _ ht)) (addTap now r tap)
      (adds.ok hok (free tap List.mem_cons_self)) (adds.attachedIn hattached hmem)
      (adds.backoffIn hbackoff hmem)
      (fun t ht => (adds.others (other t ht)).1.trans (free t (List.mem_cons_of_mem _ ht)))
    refine ⟨rest.ok, rest.attachedIn, rest.backoffIn, ?_, ?_⟩
    · intro t ht
      rcases List.mem_cons.mp ht with rfl | ht
      · obtain ⟨attached, backoff⟩ := rest.others t.name hfresh
        have served := adds.served
        unfold Served at served ⊢
        rw [List.foldl_cons, attached, backoff]
        exact served
      · exact rest.served t ht
    · intro name hname
      rw [List.map_cons, List.mem_cons, not_or] at hname
      obtain ⟨hne, hnot⟩ := hname
      obtain ⟨attached, backoff⟩ := rest.others name hnot
      obtain ⟨attached', backoff'⟩ := adds.others hne
      exact ⟨attached.trans attached', backoff.trans backoff'⟩

/-! ### A rescan -/

theorem mem_attachedView {order : List String} (hok : m.Ok)
    (visits : Visits order fun name => (m.attached name).isSome) {name : String} {ifindex : UInt32} :
    (name, ifindex) ∈ m.attachedView order ↔
      ∃ a, m.attached name = some a ∧ a.tap.ifindex = ifindex := by
  unfold attachedView
  rw [List.mem_filterMap]
  constructor
  · intro h
    obtain ⟨key, -, hkey⟩ := h
    obtain ⟨a, ha, heq⟩ := Option.map_eq_some_iff.mp hkey
    obtain ⟨hname, hifindex⟩ := Prod.mk.inj heq
    rw [hok.keyed key a ha] at hname
    subst hname
    exact ⟨a, ha, hifindex⟩
  · intro h
    obtain ⟨a, ha, rfl⟩ := h
    refine ⟨name, (visits.mem_iff name).mpr (Option.isSome_of_eq_some ha), ?_⟩
    rw [ha, Option.map_some, hok.keyed name a ha]

/-- What the search of `reconcile_plan` among the TAPs found decides. -/
theorem not_found_iff (distinct : (found.map Tap.name).Nodup) (name : String) (ifindex : UInt32) :
    ((found.find? fun t => t.name = name).map fun t => decide (t.ifindex ≠ ifindex)).getD true = true ↔
      ⟨name, ifindex⟩ ∉ found := by
  have inj : ∀ x ∈ found, ∀ y ∈ found, x.name = y.name → x = y :=
    fun x hx y hy => List.inj_on_of_nodup_map distinct hx hy
  cases hfind : found.find? fun t => t.name = name with
  | none =>
    simp only [Option.map_none, Option.getD_none, true_iff]
    intro hmem
    have := List.find?_eq_none.mp hfind _ hmem
    simp at this
  | some t =>
    obtain ⟨ht, rfl⟩ := (find?_key_eq_some_iff inj).mp hfind
    simp only [Option.map_some, Option.getD_some, decide_eq_true_eq]
    constructor
    · intro hne hmem
      exact hne (congrArg Tap.ifindex (inj t ht _ hmem rfl))
    · intro hnot same
      subst same
      exact hnot ht

theorem mem_reconcilePlan_detach {view : List (String × UInt32)}
    (distinct : (found.map Tap.name).Nodup) {name : String} :
    name ∈ (reconcilePlan view found).1 ↔
      ∃ ifindex, (name, ifindex) ∈ view ∧ ⟨name, ifindex⟩ ∉ found := by
  unfold reconcilePlan
  rw [List.mem_map]
  constructor
  · intro h
    obtain ⟨⟨name, ifindex⟩, hmem, rfl⟩ := h
    obtain ⟨hview, hgone⟩ := List.mem_filter.mp hmem
    exact ⟨ifindex, hview, (not_found_iff distinct name ifindex).mp hgone⟩
  · intro h
    obtain ⟨ifindex, hview, hgone⟩ := h
    exact ⟨(name, ifindex),
      List.mem_filter.mpr ⟨hview, (not_found_iff distinct name ifindex).mpr hgone⟩, rfl⟩

theorem mem_reconcilePlan_add {view : List (String × UInt32)}
    (functional : ∀ x ∈ view, ∀ y ∈ view, x.1 = y.1 → x = y) {tap : Tap} :
    tap ∈ (reconcilePlan view found).2 ↔ tap ∈ found ∧ (tap.name, tap.ifindex) ∉ view := by
  unfold reconcilePlan
  rw [List.mem_filter]
  apply and_congr_right
  intro _
  cases hfind : view.find? fun a => a.1 = tap.name with
  | none =>
    simp only [true_iff]
    intro hmem
    have := List.find?_eq_none.mp hfind _ hmem
    simp at this
  | some a =>
    obtain ⟨ha, hname⟩ := (find?_key_eq_some_iff functional).mp hfind
    simp only [decide_eq_true_eq]
    constructor
    · intro hne hmem
      exact hne (congrArg Prod.snd (functional a ha _ hmem hname))
    · rintro hnot hifindex
      rw [← hname, ← hifindex] at hnot
      exact hnot ha

/-- The rescan is done: every TAP found is attached or waits, and nothing is kept of any
other. -/
structure Converged (m : AttachManager) (found : List Tap) : Prop where
  attached : m.AttachedIn found
  served : ∀ tap ∈ found, m.Served tap
  backoff : m.BackoffIn found

/-- What the detaches of a rescan leave. -/
def kept (m : AttachManager) (found : List Tap) (order : List String) : AttachManager :=
  (reconcilePlan (m.attachedView order) found).1.foldl detach
    { m with retryBackoff := pruneBackoff m.retryBackoff found }

theorem kept_attached (m : AttachManager) (found : List Tap) (order : List String)
    (name : String) :
    (m.kept found order).attached name =
      if name ∈ (reconcilePlan (m.attachedView order) found).1 then none
      else m.attached name :=
  detachAll_attached _ _ name

theorem kept_backoffIn (m : AttachManager) (found : List Tap) (order : List String) :
    (m.kept found order).BackoffIn found := by
  intro name b hb
  have hmem := detachAll_backoff _ hb
  obtain ⟨-, hfound⟩ := Option.filter_eq_some_iff.mp hmem
  obtain ⟨t, ht, hboth⟩ := List.any_eq_true.mp hfound
  simp only [Bool.and_eq_true, decide_eq_true_eq] at hboth
  exact ⟨t, ht, hboth⟩

section Rescan

variable {order : List String} (hok : m.Ok)
variable (visits : Visits order fun name => (m.attached name).isSome)
include hok visits

theorem attachedView_functional :
    ∀ x ∈ m.attachedView order, ∀ y ∈ m.attachedView order, x.1 = y.1 → x = y := by
  rintro ⟨name, i⟩ hx ⟨name', j⟩ hy hname
  obtain rfl : name = name' := hname
  obtain ⟨a, ha, rfl⟩ := (mem_attachedView hok visits).mp hx
  obtain ⟨a', ha', rfl⟩ := (mem_attachedView hok visits).mp hy
  rw [Option.some.inj (ha.symm.trans ha')]

/-- An attached TAP is kept if it was found, with its interface, and detached if not. -/
theorem mem_toDetach (distinct : (found.map Tap.name).Nodup) {name : String} {a : AttachedTap}
    (ha : m.attached name = some a) :
    name ∈ (reconcilePlan (m.attachedView order) found).1 ↔ a.tap ∉ found := by
  have tap : a.tap = ⟨name, a.tap.ifindex⟩ := by rw [← hok.keyed name a ha]
  rw [mem_reconcilePlan_detach distinct]
  constructor
  · intro h
    obtain ⟨ifindex, hview, hgone⟩ := h
    obtain ⟨a', ha', rfl⟩ := (mem_attachedView hok visits).mp hview
    obtain rfl := Option.some.inj (ha.symm.trans ha')
    rwa [tap]
  · intro hgone
    rw [tap] at hgone
    exact ⟨a.tap.ifindex, (mem_attachedView hok visits).mpr ⟨a, ha, rfl⟩, hgone⟩

theorem mem_toAdd {tap : Tap} :
    tap ∈ (reconcilePlan (m.attachedView order) found).2 ↔
      tap ∈ found ∧ ∀ a, m.attached tap.name = some a → a.tap ≠ tap := by
  rw [mem_reconcilePlan_add (attachedView_functional hok visits), mem_attachedView hok visits]
  apply and_congr_right
  intro _
  constructor
  · intro hnone a ha same
    subst same
    exact hnone ⟨a, ha, rfl⟩
  · intro hne h
    obtain ⟨a, ha, hifindex⟩ := h
    refine hne a ha ?_
    have hname := hok.keyed _ a ha
    cases htap : a.tap
    simp_all

theorem kept_attachedIn (distinct : (found.map Tap.name).Nodup) :
    (m.kept found order).AttachedIn found := by
  intro name a ha
  rw [kept_attached] at ha
  split at ha
  · cases ha
  · next hstays =>
    refine ⟨hok.keyed name a ha, ?_⟩
    rw [mem_toDetach hok visits distinct ha, not_not] at hstays
    exact hstays

/-- A TAP to attach is not attached any more. -/
theorem kept_free (distinct : (found.map Tap.name).Nodup) :
    ∀ tap ∈ (reconcilePlan (m.attachedView order) found).2,
      (m.kept found order).attached tap.name = none := by
  intro tap htap
  obtain ⟨hfound, hother⟩ := (mem_toAdd hok visits).mp htap
  rw [kept_attached]
  cases ha : m.attached tap.name with
  | none => simp
  | some a =>
    have gone : a.tap ∉ found :=
      fun hmem => hother a ha (List.inj_on_of_nodup_map distinct hmem hfound (hok.keyed _ a ha))
    rw [if_pos ((mem_toDetach hok visits distinct ha).mpr gone)]

/-- A TAP that was found and is not to be attached stays attached, and no TAP of its name
is attached. -/
theorem kept_stays (distinct : (found.map Tap.name).Nodup) {tap : Tap} (htap : tap ∈ found)
    (hadd : tap ∉ (reconcilePlan (m.attachedView order) found).2) :
    (∃ a, (m.kept found order).attached tap.name = some a ∧ a.tap = tap) ∧
      tap.name ∉ (reconcilePlan (m.attachedView order) found).2.map Tap.name := by
  rw [mem_toAdd hok visits] at hadd
  obtain ⟨a, ha, same⟩ : ∃ a, m.attached tap.name = some a ∧ a.tap = tap := by
    by_contra hnone
    exact hadd ⟨htap, fun a ha same => hnone ⟨a, ha, same⟩⟩
  constructor
  · refine ⟨a, ?_, same⟩
    rw [kept_attached, if_neg, ha]
    rw [mem_toDetach hok visits distinct ha, not_not, same]
    exact htap
  · intro hmem
    obtain ⟨t, ht, hname⟩ := List.mem_map.mp hmem
    obtain ⟨hfound, hother⟩ := (mem_toAdd hok visits).mp ht
    obtain rfl := List.inj_on_of_nodup_map distinct hfound htap hname
    exact hother a ha same

/-- A rescan keeps the links accounted for and converges on what was found. -/
theorem reconcile_converges (distinct : (found.map Tap.name).Nodup) (now : ℕ) :
    (m.reconcile found order now).1.Ok ∧ (m.reconcile found order now).1.Converged found := by
  have keptOk : (m.kept found order).Ok := by
    have prunedOk : Ok { m with retryBackoff := pruneBackoff m.retryBackoff found } :=
      ⟨hok.keyed, hok.links⟩
    exact prunedOk.detachAll _
  have addDistinct : ((reconcilePlan (m.attachedView order) found).2.map Tap.name).Nodup :=
    distinct.sublist (List.filter_sublist.map Tap.name)
  have done := addAll_attached addDistinct
    (fun tap htap => ((mem_toAdd hok visits).mp htap).1) now (m.kept found order, 0, 0) keptOk
    (kept_attachedIn hok visits distinct) (kept_backoffIn m found order)
    (kept_free hok visits distinct)
  refine ⟨done.ok, done.attachedIn, fun tap htap => ?_, done.backoffIn⟩
  by_cases hadd : tap ∈ (reconcilePlan (m.attachedView order) found).2
  · exact done.served tap hadd
  · obtain ⟨⟨a, ha, same⟩, untouched⟩ := kept_stays hok visits distinct htap hadd
    exact Or.inl ⟨a, (done.others tap.name untouched).1.trans ha, same⟩

end Rescan

/-- Any run of rescans. The TAPs found and the kernel's answers are arbitrary. -/
inductive Run : AttachManager → Prop where
  | new {bpf : Ebpf} : bpf.links = 0 → bpf.detached = [] → Run (new bpf)
  | reconcile {m : AttachManager} {found : List Tap} {order : List String} (now : ℕ) : Run m →
      (found.map Tap.name).Nodup → Visits order (fun name => (m.attached name).isSome) →
      Run (m.reconcile found order now).1

theorem ok_new {bpf : Ebpf} (links : bpf.links = 0) (detached : bpf.detached = []) :
    (new bpf).Ok where
  keyed name a ha := by simp [new] at ha
  links := by
    have nothing : bpf.handles = Handles.none := by
      ext link
      · simp [Ebpf.handles, Handles.none, links]
      · simp [Ebpf.handles, Handles.none, detached]
    change Handles.Accounted bpf.handles fun _ => []
    rw [nothing]
    exact Handles.accounted_none

theorem Run.ok (h : Run m) : m.Ok := by
  induction h with
  | new links detached => exact ok_new links detached
  | reconcile now _ distinct visits ih => exact (reconcile_converges ih visits distinct now).1

/-- After every rescan of a run the manager has converged on what was found, and each link
the kernel ever handed out is held by one TAP or was detached once. -/
theorem rescans_converge_without_leak (h : Run m) (distinct : (found.map Tap.name).Nodup)
    {order : List String} (visits : Visits order fun name => (m.attached name).isSome) (now : ℕ) :
    let m' := (m.reconcile found order now).1
    m'.Converged found ∧ ∀ link < m'.bpf.links,
      (∃! name, link ∈ m'.held name) ∧ m'.bpf.detached.count link = 0 ∨
        (∀ name, link ∉ m'.held name) ∧ m'.bpf.detached.count link = 1 := by
  intro m'
  obtain ⟨ok, converged⟩ := reconcile_converges h.ok visits distinct now
  exact ⟨converged, fun link hlink => ok.links.exactly_once hlink⟩

/-- The kernel fails the fourth request, the egress hook of the second TAP. -/
def oneFailure : Ebpf := ⟨fun n => if n = 3 then some (.other "no memory") else none, 0, 0, []⟩

/-- Two TAPs, of which one could not be attached; the other is then recreated. -/
theorem rescans_converge_without_leak_recreated : ∃ m : AttachManager, Run m ∧
    m.bpf.detached = [2] ∧
    let m' := (m.reconcile [⟨"tap0", 5⟩, ⟨"tap1", 4⟩] ["tap0"] 1).1
    m'.bpf.links = 5 ∧ m'.bpf.detached = [1, 0, 2] ∧
      m'.Converged [⟨"tap0", 5⟩, ⟨"tap1", 4⟩] ∧ ∀ link < m'.bpf.links,
        (∃! name, link ∈ m'.held name) ∧ m'.bpf.detached.count link = 0 ∨
          (∀ name, link ∉ m'.held name) ∧ m'.bpf.detached.count link = 1 := by
  have nothing : Visits [] fun name => ((new oneFailure).attached name).isSome :=
    ⟨List.nodup_nil, by simp [new]⟩
  have first : Run ((new oneFailure).reconcile [⟨"tap0", 3⟩, ⟨"tap1", 4⟩] [] 0).1 :=
    .reconcile 0 (.new rfl rfl) (by decide) nothing
  have attached : ((new oneFailure).reconcile [⟨"tap0", 3⟩, ⟨"tap1", 4⟩] [] 0).1.attached =
      Table.empty.insert "tap0" ⟨⟨"tap0", 3⟩, 0, 1, .notRequired⟩ := rfl
  have visits : Visits ["tap0"] fun name =>
      (((new oneFailure).reconcile [⟨"tap0", 3⟩, ⟨"tap1", 4⟩] [] 0).1.attached name).isSome := by
    rw [attached]
    refine ⟨List.nodup_singleton _, fun name => ?_⟩
    by_cases own : name = "tap0" <;> simp [own]
  exact ⟨_, first, rfl, rfl, rfl, rescans_converge_without_leak first (by decide) visits 1⟩
/-- Dropping the manager gives back whatever it holds. -/
theorem Ok.drop_detaches (hok : m.Ok) {names : List String}
    (visits : Visits names fun name => (m.attached name).isSome) :
    ∀ link < (m.drop names).bpf.links, (m.drop names).bpf.detached.count link = 1 := by
  intro link hlink
  have ok : (m.drop names).Ok := hok.detachAll names
  have empty : ∀ name, (m.drop names).held name = [] := by
    intro name
    have gone : (m.drop names).attached name = none := by
      unfold AttachManager.drop
      rw [detachAll_attached]
      split
      · rfl
      · next hnot =>
        cases ha : m.attached name with
        | none => rfl
        | some a => exact absurd ((visits.mem_iff name).mpr (Option.isSome_of_eq_some ha)) hnot
    simp [held, gone]
  rcases ok.links.exactly_once hlink with ⟨⟨name, hheld, -⟩, -⟩ | ⟨-, once⟩
  · simp [empty name] at hheld
  · exact once

end AttachManager

end VmWatcher
