import VmWatcher.Misc.Tickets
import VmWatcher.Misc.Trace
import VmWatcher.Ui.Loop

/-!
# Whose data the trend screen shows

Results are told apart by the number of their fetch, and the number moves on when a fetch
begins. Between the key that selects something else and the poll that begins its fetch the
latest number is still that of the selection before.
-/

namespace VmWatcher

open Ipc

/-! ### What a step does to the trend view -/

/-- The trend view is as before, or one without data, or one whose fetch is due again. -/
structure UiState.Moved (app app' : UiState) : Prop where
  seq : app'.trendSeq = app.trendSeq
  enabled : app'.metricsEnabled = app.metricsEnabled
  view : ∀ v', app'.trend = some v' → app.trend = some v' ∨
    v'.fetchedAt = none ∧ (v'.data = none ∨
      ∃ v, app.trend = some v ∧ v'.selection = v.selection ∧ v'.data = v.data)

/-- Nothing about trends is touched. -/
structure UiState.Same (app app' : UiState) : Prop where
  seq : app'.trendSeq = app.trendSeq
  enabled : app'.metricsEnabled = app.metricsEnabled
  trend : app'.trend = app.trend

namespace UiState

variable {app : UiState}

theorem Same.refl : app.Same app := ⟨rfl, rfl, rfl⟩

theorem Same.trans {app' app'' : UiState} (h : app.Same app') (h' : app'.Same app'') :
    app.Same app'' :=
  ⟨h'.seq.trans h.seq, h'.enabled.trans h.enabled, h'.trend.trans h.trend⟩

theorem Same.moved {app' : UiState} (h : app.Same app') : app.Moved app' :=
  ⟨h.seq, h.enabled, fun _ hv => .inl (h.trend ▸ hv)⟩

theorem Moved.refl : app.Moved app := Same.refl.moved

theorem moved_moveRow (delta : ℤ) : app.Moved (app.moveRow delta) := by
  unfold moveRow
  cases app.screen <;> exact Same.moved ⟨rfl, rfl, rfl⟩

theorem moved_refreshNow : app.Moved app.refreshNow.1 := by
  unfold refreshNow
  cases app.screen with
  | overview => exact .refl
  | detail => exact .refl
  | trend =>
    refine ⟨rfl, rfl, fun v' hv => .inr ?_⟩
    obtain ⟨v, before, rfl⟩ := Option.map_eq_some_iff.mp hv
    exact ⟨rfl, .inr ⟨v, before, rfl, rfl⟩⟩

theorem moved_of_empty {app' : UiState} (seq : app'.trendSeq = app.trendSeq)
    (enabled : app'.metricsEnabled = app.metricsEnabled) {v : TrendView}
    (trend : app'.trend = some v) (due : v.fetchedAt = none) (empty : v.data = none) :
    app.Moved app' := by
  refine ⟨seq, enabled, fun v' hv => .inr ?_⟩
  obtain rfl := Option.some.inj (trend.symm.trans hv)
  exact ⟨due, .inl empty⟩

theorem moved_reselect (v : TrendView) (win : TrendWindow) (kind : TrendKind) :
    app.Moved (app.reselect v win kind).1 := by
  unfold reselect
  split_ifs
  · exact moved_of_empty rfl rfl rfl rfl rfl
  · exact .refl

theorem moved_trendKey (code : KeyCode) : app.Moved (app.trendKey code).1 := by
  unfold trendKey
  split
  · exact .refl
  · split <;> first | exact moved_reselect _ _ _ | exact .refl

theorem moved_openTrend (target : TrendTarget) : app.Moved (app.openTrend target).1 :=
  moved_of_empty rfl rfl rfl rfl rfl

theorem moved_openDetail : app.Moved app.openDetail.1 := by
  unfold openDetail
  split
  · exact .refl
  · dsimp only
    split_ifs
    · exact .refl
    · exact Same.moved ⟨rfl, rfl, rfl⟩

theorem moved_openIpTrend : app.Moved app.openIpTrend.1 := by
  unfold openIpTrend
  dsimp only
  split
  · exact .refl
  · exact moved_openTrend _

theorem moved_openRangeTrend : app.Moved app.openRangeTrend.1 := by
  unfold openRangeTrend
  dsimp only
  split
  · exact .refl
  · exact moved_openTrend _

theorem moved_leave : app.Moved app.leave.1 := by
  unfold leave
  cases app.screen with
  | overview => exact .refl
  | detail => exact Same.moved ⟨rfl, rfl, rfl⟩
  | trend =>
    dsimp only
    split_ifs <;> exact ⟨rfl, rfl, fun v' hv => absurd hv (by simp)⟩

theorem moved_pressed (code : KeyCode) : app.Moved (app.pressed code).1 := by
  unfold pressed
  split
  · exact .refl
  · exact moved_refreshNow
  · exact Same.moved ⟨rfl, rfl, rfl⟩
  · exact moved_moveRow _
  · exact moved_moveRow _
  · split_ifs
    · exact moved_leave
    · exact moved_trendKey _
  · exact moved_openDetail
  · exact moved_openIpTrend
  · exact moved_openRangeTrend
  · exact moved_leave
  · exact Same.moved ⟨rfl, rfl, rfl⟩
  · exact .refl

/-- No key gives the trend view data it did not have. -/
theorem moved_handleKey (key : KeyEvent) : app.Moved (app.handleKey key).1 := by
  unfold handleKey
  split_ifs
  · exact .refl
  · exact .refl
  · exact Same.moved ⟨rfl, rfl, rfl⟩
  · exact moved_pressed _

theorem moved_draw : app.Moved (draw app) := by
  unfold draw
  split
  · split
    · exact .refl
    · exact Same.moved ⟨rfl, rfl, rfl⟩
  · split
    · exact .refl
    · exact Same.moved ⟨rfl, rfl, rfl⟩
  · exact .refl

theorem same_pollOverview (answer : Except String (Response Float)) :
    app.Same (app.pollOverview answer).2 := by
  unfold pollOverview
  split <;> exact ⟨rfl, rfl, rfl⟩

theorem same_pollDetail (idx : ℕ) (answer : Except String (Response Float)) :
    app.Same (app.pollDetail idx answer).2 := by
  unfold pollDetail
  split <;> exact ⟨rfl, rfl, rfl⟩

theorem same_pollDaemon (client : Bool) (answers : Answers) :
    app.Same (app.pollDaemon client answers).2 := by
  have connected : app.Same
      (if !client && answers.connects then { app with error := none } else app) := by
    split_ifs
    · exact ⟨rfl, rfl, rfl⟩
    · exact .refl
  unfold pollDaemon
  dsimp only
  generalize (if !client && answers.connects then { app with error := none } else app) = app'
    at connected ⊢
  split_ifs
  · exact connected.trans ⟨rfl, rfl, rfl⟩
  · exact connected.trans (same_pollOverview _)
  · have overview := connected.trans (same_pollOverview answers.overview)
    split
    · exact overview
    · exact overview.trans (same_pollDetail _ _)

end UiState

/-- What `fetch_trend` does: it marks the view as fetched and, with metrics on, begins a
fetch for what the view selects, under the next number. -/
structure Fetched (app app' : UiState) (fetch : Option TrendFetch) : Prop where
  enabled : app'.metricsEnabled = app.metricsEnabled
  view : ∀ v', app'.trend = some v' →
    ∃ v, app.trend = some v ∧ v'.selection = v.selection ∧ v'.data = v.data
  idle : fetch = none → app'.trendSeq = app.trendSeq ∧
    (app.metricsEnabled → app'.trend = app.trend)
  begun : ∀ f, fetch = some f → app.metricsEnabled ∧ app'.trendSeq = app.trendSeq + 1 ∧
    f.seq = app.trendSeq + 1 ∧ ∃ v, app.trend = some v ∧ f.asked = v.selection

theorem fetched_fetchTrend (app : UiState) (now : ℕ) (wall : ℤ) :
    Fetched app (fetchTrend app now wall).1 (fetchTrend app now wall).2 := by
  unfold fetchTrend
  split
  · next none =>
    exact ⟨rfl, by simp [none], fun _ => ⟨rfl, fun _ => rfl⟩, by simp⟩
  · next v hv =>
    cases on : app.metricsEnabled with
    | false =>
      refine ⟨by simp [on], ?_, by simp [on], by simp⟩
      intro v' hv'
      obtain rfl := Option.some.inj hv'
      exact ⟨v, hv, rfl, rfl⟩
    | true =>
      refine ⟨by simp [on], ?_, by simp, ?_⟩
      · intro v' hv'
        obtain rfl := Option.some.inj hv'
        exact ⟨v, hv, rfl, rfl⟩
      · intro f hf
        obtain rfl := Option.some.inj hf
        exact ⟨on, rfl, rfl, v, hv, rfl⟩

theorem fetched_refl (app : UiState) : Fetched app app none :=
  ⟨rfl, fun v hv => ⟨v, hv, rfl, rfl⟩, fun _ => ⟨rfl, fun _ => rfl⟩, by simp⟩

theorem Fetched.same {app app' app'' : UiState} {fetch : Option TrendFetch}
    (h : Fetched app app' fetch) (same : app'.Same app'') : Fetched app app'' fetch where
  enabled := same.enabled.trans h.enabled
  view v hv := h.view v (same.trend ▸ hv)
  idle none := ⟨same.seq.trans (h.idle none).1, fun on => same.trend.trans ((h.idle none).2 on)⟩
  begun f hf := by
    obtain ⟨on, seq, own, asked⟩ := h.begun f hf
    exact ⟨on, same.seq.trans seq, own, asked⟩

theorem fetched_poll (client : Bool) (app : UiState) (now : ℕ) (wall : ℤ) (answers : Answers) :
    Fetched app (poll client app now wall answers).2.1 (poll client app now wall answers).2.2 := by
  have trend : Fetched app
      (if app.trendStale now then fetchTrend app now wall else (app, none)).1
      (if app.trendStale now then fetchTrend app now wall else (app, none)).2 := by
    split_ifs
    · exact fetched_fetchTrend app now wall
    · exact fetched_refl app
  exact trend.same (UiState.same_pollDaemon client answers)

/-! ### Which results are outstanding -/

/-- A result with data, as the number and the selection of its fetch. -/
def arrived (r : ℕ × Except String TrendData) : Option (ℕ × Selection) :=
  r.2.toOption.map fun d => (r.1, d.asked)

namespace UiLoop

/-- The fetches that can still bring data. -/
def tickets (s : UiLoop) : Tickets Selection where
  seq := s.app.trendSeq
  latest := s.begun
  outstanding := s.inFlight.map (fun f => (f.seq, f.asked)) ++ s.channel.filterMap arrived

/-- What holds of the fetches in every state of the loop. -/
structure Sound (s : UiLoop) : Prop where
  tickets : s.tickets.Sound
  /-- A view that was fetched is the one the latest fetch was begun for. -/
  fetched : ∀ v, s.app.trend = some v → v.fetchedAt ≠ none → s.app.metricsEnabled →
    s.begun = some v.selection
  silent : s.app.metricsEnabled = false → s.inFlight = [] ∧ s.channel = []

/-- The data on the trend screen was fetched for what the screen selects. -/
def Matches (s : UiLoop) : Prop :=
  ∀ v, s.app.trend = some v → ∀ d, v.data = some d → d.asked = v.selection

/-- The step collects data of the latest fetch while the trend view, whose own fetch has not
begun, selects something else than the latest fetch was begun for. -/
def CollectsInGap (s : UiLoop) (e : UiEvent) : Prop :=
  e = .collect ∧ ∃ v d rest, s.app.trend = some v ∧ v.fetchedAt = none ∧
    s.begun ≠ some v.selection ∧ s.channel = (s.app.trendSeq, .ok d) :: rest

variable {s t : UiLoop}

/-- Steps that leave the fetches alone. -/
theorem Sound.moved (h : s.Sound) (moved : s.app.Moved t.app) (inFlight : t.inFlight = s.inFlight)
    (channel : t.channel = s.channel) (begun : t.begun = s.begun) : t.Sound where
  tickets := h.tickets.mono moved.seq begun (by simp [UiLoop.tickets, inFlight, channel])
  fetched v hv fetched on := by
    rw [begun]
    rcases moved.view v hv with before | after
    · exact h.fetched v before fetched (moved.enabled ▸ on)
    · exact absurd after.1 fetched
  silent off := by
    rw [inFlight, channel]
    exact h.silent (moved.enabled ▸ off)

theorem Matches.moved (h : s.Matches) (moved : s.app.Moved t.app) : t.Matches := by
  intro v hv d hd
  rcases moved.view v hv with before | ⟨-, empty | ⟨w, before, selection, data⟩⟩
  · exact h v before d hd
  · simp [empty] at hd
  · rw [selection]
    exact h w before d (data ▸ hd)

theorem moved_onInput (input : UiInput) (now : ℕ) : s.app.Moved (s.onInput input now).app ∧
    (s.onInput input now).inFlight = s.inFlight ∧ (s.onInput input now).channel = s.channel ∧
    (s.onInput input now).begun = s.begun := by
  unfold onInput
  cases input with
  | key key =>
    have moved : s.app.Moved (s.app.handleKey key).1 := UiState.moved_handleKey key
    dsimp only
    generalize s.app.handleKey key = after at moved ⊢
    obtain ⟨app, action⟩ := after
    cases action <;> exact ⟨moved, rfl, rfl, rfl⟩
  | otherEvent => exact ⟨.refl, rfl, rfl, rfl⟩
  | timeout => exact ⟨.refl, rfl, rfl, rfl⟩
  | disconnected => exact ⟨.refl, rfl, rfl, rfl⟩

/-! ### Polls -/

theorem tickets_onPoll {now : ℕ} {wall : ℤ} {answers : Answers} (later : ℕ) {f : TrendFetch}
    (hf : (poll s.client s.app now wall answers).2.2 = some f)
    (seq : f.seq = s.app.trendSeq + 1)
    (next : (poll s.client s.app now wall answers).2.1.trendSeq = s.app.trendSeq + 1) :
    (s.onPoll now wall answers later).tickets.seq = (s.tickets.issue f.asked).seq ∧
    (s.onPoll now wall answers later).tickets.latest = (s.tickets.issue f.asked).latest ∧
    (s.onPoll now wall answers later).tickets.outstanding ⊆
      (s.tickets.issue f.asked).outstanding := by
  refine ⟨next, by simp [UiLoop.tickets, onPoll, hf, Tickets.issue], ?_⟩
  intro e he
  simp only [UiLoop.tickets, onPoll, hf, Tickets.issue, Option.toList_some, List.map_append,
    List.map_cons, List.map_nil, List.mem_append, List.mem_singleton, seq] at he ⊢
  tauto

theorem Sound.onPoll (h : s.Sound) (now : ℕ) (wall : ℤ) (answers : Answers) (later : ℕ) :
    (s.onPoll now wall answers later).Sound := by
  have did := fetched_poll s.client s.app now wall answers
  cases hf : (poll s.client s.app now wall answers).2.2 with
  | none =>
    obtain ⟨seq, trend⟩ := did.idle hf
    refine ⟨h.tickets.mono seq ?_ ?_, ?_, ?_⟩
    · simp [UiLoop.tickets, UiLoop.onPoll, hf]
    · simp [UiLoop.tickets, UiLoop.onPoll, hf]
    · intro v hv fetched on
      have on' : s.app.metricsEnabled := did.enabled ▸ on
      have := h.fetched v (trend on' ▸ hv) fetched on'
      simpa [UiLoop.onPoll, hf] using this
    · intro off
      have := h.silent (did.enabled ▸ off)
      simpa [UiLoop.onPoll, hf] using this
  | some f =>
    obtain ⟨on, next, seq, v, hv, asked⟩ := did.begun f hf
    obtain ⟨sameSeq, sameLatest, sub⟩ := tickets_onPoll later hf seq next
    refine ⟨(h.tickets.issue f.asked).mono sameSeq sameLatest sub, ?_, ?_⟩
    · intro v' hv' _ _
      obtain ⟨w, before, selection, -⟩ := did.view v' hv'
      obtain rfl := Option.some.inj (hv.symm.trans before)
      simp [UiLoop.onPoll, hf, asked, selection]
    · intro off
      exact absurd (did.enabled.symm.trans off) (by simp [on])

theorem Matches.onPoll (h : s.Matches) (now : ℕ) (wall : ℤ) (answers : Answers) (later : ℕ) :
    (s.onPoll now wall answers later).Matches := by
  have did := fetched_poll s.client s.app now wall answers
  intro v hv d hd
  obtain ⟨w, before, selection, data⟩ := did.view v hv
  rw [selection]
  exact h w before d (data ▸ hd)

/-! ### Results -/

theorem collect_view {seq : ℕ} {res : Except String TrendData} {v' : TrendView}
    (h : (s.app.collect seq res).trend = some v') :
    ∃ v, s.app.trend = some v ∧ v'.selection = v.selection ∧ v'.fetchedAt = v.fetchedAt ∧
      v'.data = if seq = s.app.trendSeq then res.toOption else v.data := by
  unfold UiState.collect at h
  split_ifs at h with latest
  · obtain ⟨v, hv, rfl⟩ := Option.map_eq_some_iff.mp h
    refine ⟨v, hv, ?_⟩
    cases res <;> simp [latest, TrendView.selection, Except.toOption]
  · exact ⟨v', h, rfl, rfl, by simp [latest]⟩

theorem collect_seq (seq : ℕ) (res : Except String TrendData) :
    (s.app.collect seq res).trendSeq = s.app.trendSeq ∧
      (s.app.collect seq res).metricsEnabled = s.app.metricsEnabled := by
  unfold UiState.collect
  split_ifs <;> exact ⟨rfl, rfl⟩

theorem Sound.collect (h : s.Sound) {r : ℕ × Except String TrendData}
    {rest : List (ℕ × Except String TrendData)} (channel : s.channel = r :: rest) :
    Sound { s with app := s.app.collect r.1 r.2, channel := rest } := by
  obtain ⟨seq, enabled⟩ := collect_seq (s := s) r.1 r.2
  refine ⟨h.tickets.mono seq rfl ?_, ?_, ?_⟩
  · intro e he
    simp only [UiLoop.tickets, channel, List.filterMap_cons, List.mem_append] at he ⊢
    apply he.imp id
    intro he
    split
    · exact he
    · exact List.mem_cons_of_mem _ he
  · intro v hv fetched on
    obtain ⟨w, before, selection, at', -⟩ := collect_view hv
    rw [selection]
    exact h.fetched w before (at' ▸ fetched) (enabled ▸ on)
  · intro off
    have := (h.silent (enabled ▸ off)).2
    simp [channel] at this

/-- Data that is collected is that of the view unless it is collected in the gap. -/
theorem Sound.matches_collect (h : s.Sound) (before : s.Matches)
    {r : ℕ × Except String TrendData} {rest : List (ℕ × Except String TrendData)}
    (channel : s.channel = r :: rest) :
    Matches { s with app := s.app.collect r.1 r.2, channel := rest } ↔
      ¬ s.CollectsInGap .collect := by
  constructor
  · intro after given
    obtain ⟨-, v, d, rest', hv, due, other, head⟩ := given
    obtain ⟨rfl, -⟩ := List.cons.inj (channel.symm.trans head)
    have latest : s.begun = some d.asked := by
      apply h.tickets.latest (s.app.trendSeq, d.asked) _ rfl
      simp [UiLoop.tickets, channel, arrived, Except.toOption]
    have shown : (s.app.collect s.app.trendSeq (.ok d)).trend =
        some { v with data := some d, error := none } := by
      simp [UiState.collect, hv]
    have := after _ shown d rfl
    exact other (this ▸ latest)
  · intro noGap v' hv' d hd
    obtain ⟨v, hv, selection, at', data⟩ := collect_view hv'
    rw [selection]
    rw [data] at hd
    split_ifs at hd with current
    · have ok : r.2 = .ok d := by
        cases hr : r.2 with
        | error e => simp [hr, Except.toOption] at hd
        | ok d' => simpa [hr, Except.toOption] using hd
      have latest : s.begun = some d.asked := by
        apply h.tickets.latest (r.1, d.asked) _ current
        simp [UiLoop.tickets, channel, arrived, ok, Except.toOption]
      by_contra wrong
      have other : s.begun ≠ some v.selection := by
        rw [latest]
        simpa using wrong
      have on : s.app.metricsEnabled = true := by
        by_contra off
        have := (h.silent (by simpa using off)).2
        simp [channel] at this
      have due : v.fetchedAt = none := by
        by_contra fetched
        exact other (h.fetched v hv fetched on)
      exact noGap ⟨rfl, v, d, rest, hv, due, other, by
        rw [channel, ← current, ← ok]⟩
    · exact before v hv d hd

theorem Sound.finish (h : s.Sound) {index : ℕ} {f : TrendFetch}
    (hf : s.inFlight[index]? = some f) (answer : Except String (Series × Series)) :
    Sound { s with
      inFlight := s.inFlight.eraseIdx index
      channel := s.channel ++ [(f.seq, f.result answer)] } := by
  have mem : f ∈ s.inFlight := List.mem_of_getElem? hf
  refine ⟨h.tickets.mono rfl rfl ?_, h.fetched, ?_⟩
  · intro e he
    simp only [UiLoop.tickets, List.mem_append, List.filterMap_append] at he ⊢
    rcases he with he | he | he
    · exact .inl (List.map_subset _ (List.eraseIdx_subset) he)
    · exact .inr he
    · refine .inl (List.mem_map.mpr ⟨f, mem, ?_⟩)
      cases answer with
      | error e => simp [arrived, TrendFetch.result, Except.map, Except.toOption] at he
      | ok series =>
        simpa [arrived, TrendFetch.result, Except.map, Except.toOption, eq_comm] using he
  · intro off
    have := (h.silent off).1
    simp [this] at mem

/-! ### Runs -/

/-- A step that keeps what is shown right, and collects nothing. -/
theorem matches_iff_of_ne {e : UiEvent} (ne : e ≠ .collect) (h : t.Matches) :
    t.Matches ↔ ¬ s.CollectsInGap e :=
  ⟨fun _ gap => ne gap.1, fun _ => h⟩

/-- One step goes wrong exactly when it collects in the gap. -/
theorem Sound.step (h : s.Sound) (shown : s.Matches) {e : UiEvent} (hs : s.step e = some t) :
    t.Sound ∧ (t.Matches ↔ ¬ s.CollectsInGap e) := by
  cases e with
  | draw =>
    simp only [UiLoop.step, Option.ite_none_right_eq_some, Option.some.injEq] at hs
    obtain ⟨-, rfl⟩ := hs
    exact ⟨h.moved UiState.moved_draw rfl rfl rfl,
      matches_iff_of_ne (by simp) (shown.moved UiState.moved_draw)⟩
  | input input now =>
    simp only [UiLoop.step, Option.ite_none_right_eq_some, Option.some.injEq] at hs
    obtain ⟨-, rfl⟩ := hs
    obtain ⟨moved, inFlight, channel, begun⟩ := moved_onInput (s := s) input now
    exact ⟨h.moved moved inFlight channel begun, matches_iff_of_ne (by simp) (shown.moved moved)⟩
  | collect =>
    simp only [UiLoop.step, Option.ite_none_right_eq_some] at hs
    obtain ⟨-, hs⟩ := hs
    cases channel : s.channel with
    | nil => simp [channel] at hs
    | cons r rest =>
      simp only [channel, Option.some.injEq] at hs
      subst hs
      exact ⟨h.collect channel, h.matches_collect shown channel⟩
  | drained =>
    simp only [UiLoop.step, Option.ite_none_right_eq_some, Option.some.injEq] at hs
    obtain ⟨-, rfl⟩ := hs
    exact ⟨h.moved .refl rfl rfl rfl, matches_iff_of_ne (by simp) shown⟩
  | poll now wall answers later =>
    simp only [UiLoop.step, Option.ite_none_right_eq_some] at hs
    obtain ⟨-, hs⟩ := hs
    split_ifs at hs with due
    · obtain rfl := Option.some.inj hs
      exact ⟨h.onPoll now wall answers later,
        matches_iff_of_ne (by simp) (shown.onPoll now wall answers later)⟩
    · obtain rfl := Option.some.inj hs
      exact ⟨h.moved .refl rfl rfl rfl, matches_iff_of_ne (by simp) shown⟩
  | finish index answer =>
    simp only [UiLoop.step] at hs
    cases hf : s.inFlight[index]? with
    | none => simp [hf] at hs
    | some f =>
      simp only [hf, Option.some.injEq] at hs
      subst hs
      exact ⟨h.finish hf answer, matches_iff_of_ne (by simp) shown⟩

end UiLoop

/-! ### The interface from its start -/

theorem startUi_trend (cfg : Option ValidatedConfig) (connected : Except String Unit) (now : ℕ)
    (wall : ℤ) (answers : Answers) :
    (startUi cfg connected now wall answers).app.trend = none ∧
      (startUi cfg connected now wall answers).inFlight = [] := by
  have closed : (startState cfg connected).trend = none := by
    cases cfg <;> cases connected <;> rfl
  have did := fetched_poll connected.toBool (startState cfg connected) now wall answers
  constructor
  · cases hv : (startUi cfg connected now wall answers).app.trend with
    | none => rfl
    | some v' =>
      obtain ⟨v, hv, -⟩ := did.view v' hv
      simp [closed] at hv
  · cases hf : (poll connected.toBool (startState cfg connected) now wall answers).2.2 with
    | none => simp [startUi, hf]
    | some f =>
      obtain ⟨-, -, -, v, hv, -⟩ := did.begun f hf
      simp [closed] at hv

namespace UiLoop

/-- A configuration with metrics. -/
def metricsOn : ValidatedConfig :=
  ⟨"br0", 1000, 5, 8192, 1, true, true, true, .ip, true, "http://127.0.0.1:8428", 60, []⟩

/-- The overview of a daemon with one range. -/
def oneRangeStatus : Status :=
  { (default : Status) with
    protocolVersion := 1
    bridge := "br0"
    ranges := [{ (default : RangeSummary) with name := "a" }] }

/-- A daemon with one range. -/
def oneRange : Answers := ⟨true, .ok (.status oneRangeStatus), .error ""⟩

/-- The trend of the range is opened and its fetch begins. -/
def openRange : List UiEvent :=
  [.draw, .input (.key ⟨.char 't', false, true⟩) 0, .drained, .poll 0 100000 oneRange 0, .draw]

/-- In a run of the interface the trend screen shows the data of what it selects, exactly when
no data is collected in the gap between a key that selects something else and the poll that
begins its fetch. -/
theorem shown_is_selected_iff (cfg : Option ValidatedConfig) (connected : Except String Unit)
    (now : ℕ) (wall : ℤ) (answers : Answers) (events : List UiEvent)
    {steps : List (UiLoop × UiEvent)} {last : UiLoop}
    (run : trace UiLoop.step (startUi cfg connected now wall answers) events = some (steps, last)) :
    ((∀ p ∈ steps, p.1.Matches) ∧ last.Matches) ↔ ∀ p ∈ steps, ¬ p.1.CollectsInGap p.2 := by
  obtain ⟨closed, idle⟩ := startUi_trend cfg connected now wall answers
  have sound : (startUi cfg connected now wall answers).Sound := by
    refine ⟨?_, fun v hv => by simp [closed] at hv, fun _ => ⟨idle, rfl⟩⟩
    have none : (startUi cfg connected now wall answers).tickets.outstanding = [] := by
      rw [tickets, idle]
      rfl
    exact (Tickets.Sound.empty _ _).mono rfl rfl (by rw [none]; simp)
  refine trace_good_iff (fun s h => And.right h) (?_)
    (?_) ⟨sound, fun v hv => by simp [closed] at hv⟩ run
  · intro s e t h ht free
    obtain ⟨sound, exact⟩ := h.1.step h.2 ht
    exact ⟨sound, exact.mpr free⟩
  · intro s e t h ht gap
    obtain ⟨-, exact⟩ := h.1.step h.2 ht
    exact fun shown => exact.mp shown gap

/-- Its fetch finishes while nothing is pressed. -/
def waitForRange : List UiEvent :=
  [.input .timeout 0, .finish 0 (.ok ([], [])), .collect, .drained]

theorem shown_is_selected_iff_untouched : ∃ steps last,
    trace UiLoop.step (startUi (some metricsOn) (.ok ()) 0 100000 oneRange)
      (openRange ++ waitForRange) =
      some (steps, last) ∧
    (((∀ p ∈ steps, p.1.Matches) ∧ last.Matches) ↔ ∀ p ∈ steps, ¬ p.1.CollectsInGap p.2) :=
  ⟨_, _, rfl, shown_is_selected_iff (some metricsOn) (.ok ()) 0 100000 oneRange
    (openRange ++ waitForRange) rfl⟩

/-- The next window is selected while the fetch of the first one finishes. -/
def changeWindow : List UiEvent :=
  [.input (.key ⟨.right, false, true⟩) 0, .finish 0 (.ok ([], [])), .collect, .drained,
    .poll 0 100000 oneRange 0]

/-- The points of the last hour stay on the screen of the last day. -/
theorem previous_window_shown : ∃ steps last,
    trace UiLoop.step (startUi (some metricsOn) (.ok ()) 0 100000 oneRange)
      (openRange ++ changeWindow) =
      some (steps, last) ∧ ¬ last.Matches := by
  refine ⟨_, _, rfl, ?_⟩
  intro h
  have := h _ rfl _ rfl
  exact absurd this (by decide)

end UiLoop

end VmWatcher
