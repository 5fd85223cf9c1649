import Mathlib.Data.List.Basic
import Mathlib.Logic.Basic

/-!
# Programs whose operations may fail

An `OpProg` is a program that calls operations on a store and sees for each call
either its result or an error. The store's side is a function `eff`: what an
operation that succeeds returns and leaves behind. An operation that fails leaves
the store alone, and every operation may fail at every call, so one program has many
runs (`Runs`), one for each choice of failures.

`wp ok prog post s` is the precondition for all of them at once: whatever fails,
each operation is called in a store that `ok` admits for it, and the run ends in
`post`, which sees the operations called, the result and the store.
-/

namespace VmWatcher

/-- A program over operations `Op` that return `Res op` or fail with an `Err`. -/
inductive OpProg (Op : Type) (Res : Op → Type) (Err α : Type) : Type where
  | done (a : α)
  | call (op : Op) (next : Except Err (Res op) → OpProg Op Res Err α)

namespace OpProg

variable {Op : Type} {Res : Op → Type} {Err α β S T : Type}

/-- Run `x`, then what its result asks for. -/
def bind : OpProg Op Res Err α → (α → OpProg Op Res Err β) → OpProg Op Res Err β
  | done a, f => f a
  | call op next, f => call op fun r => (next r).bind f

instance : Monad (OpProg Op Res Err) where
  pure := done
  bind := bind

@[simp] theorem pure_eq (a : α) : (pure a : OpProg Op Res Err α) = done a := rfl

@[simp] theorem done_bind (a : α) (f : α → OpProg Op Res Err β) :
    (done a : OpProg Op Res Err α) >>= f = f a := rfl

@[simp] theorem call_bind (op : Op) (next : Except Err (Res op) → OpProg Op Res Err α)
    (f : α → OpProg Op Res Err β) :
    call op next >>= f = call op fun r => next r >>= f := rfl

/-- The program of one operation. -/
def attempt (op : Op) : OpProg Op Res Err (Except Err (Res op)) := call op done

@[simp] theorem attempt_bind (op : Op)
    (f : Except Err (Res op) → OpProg Op Res Err α) : attempt op >>= f = call op f := rfl

/-- One operation of a run: whether it failed, and the store it left. -/
structure Event (Op Err S : Type) where
  op : Op
  error : Option Err
  after : S

/-- The same operation seen through a view of the store. -/
def Event.map (view : S → T) (ev : Event Op Err S) : Event Op Err T :=
  ⟨ev.op, ev.error, view ev.after⟩

/-- `Runs eff prog s evs a s'`: from the store `s` the program can perform the
operations `evs`, return `a` and leave `s'`. -/
inductive Runs (eff : (op : Op) → S → Res op × S) :
    OpProg Op Res Err α → S → List (Event Op Err S) → α → S → Prop where
  | done (a : α) (s : S) : Runs eff (done a) s [] a s
  | ok {op : Op} {next : Except Err (Res op) → OpProg Op Res Err α} {s s' : S}
      {evs : List (Event Op Err S)} {a : α} :
      Runs eff (next (.ok (eff op s).1)) (eff op s).2 evs a s' →
      Runs eff (call op next) s (⟨op, none, (eff op s).2⟩ :: evs) a s'
  | fail {op : Op} {next : Except Err (Res op) → OpProg Op Res Err α} {s s' : S}
      {evs : List (Event Op Err S)} {a : α} (e : Err) :
      Runs eff (next (.error e)) s evs a s' →
      Runs eff (call op next) s (⟨op, some e, s⟩ :: evs) a s'

/-- The run in which the `n`-th operation fails when `fails n` names an error. -/
def exec (eff : (op : Op) → S → Res op × S) :
    OpProg Op Res Err α → (ℕ → Option Err) → S → List (Event Op Err S) × α × S
  | done a, _, s => ([], a, s)
  | call op next, fails, s =>
      match fails 0 with
      | none =>
          let rest := exec eff (next (.ok (eff op s).1)) (fun n => fails (n + 1)) (eff op s).2
          (⟨op, none, (eff op s).2⟩ :: rest.1, rest.2)
      | some e =>
          let rest := exec eff (next (.error e)) (fun n => fails (n + 1)) s
          (⟨op, some e, s⟩ :: rest.1, rest.2)

/-- Every choice of failures is a run. -/
theorem runs_exec (eff : (op : Op) → S → Res op × S) (prog : OpProg Op Res Err α) :
    ∀ (fails : ℕ → Option Err) (s : S),
      Runs eff prog s (exec eff prog fails s).1 (exec eff prog fails s).2.1
        (exec eff prog fails s).2.2 := by
  induction prog with
  | done a =>
    intro fails s
    exact .done a s
  | call op next ih =>
    intro fails s
    cases h : fails 0 with
    | none =>
      simp only [exec, h]
      exact .ok (ih _ _ _)
    | some e =>
      simp only [exec, h]
      exact .fail e (ih _ _ _)

/-- Runs of a store are runs of what a view that respects the operations shows of it. -/
theorem Runs.map {eff : (op : Op) → S → Res op × S} {eff' : (op : Op) → T → Res op × T}
    {view : S → T}
    (respects : ∀ op s, ((eff op s).1, view (eff op s).2) = eff' op (view s))
    {prog : OpProg Op Res Err α} {s s' : S} {evs : List (Event Op Err S)} {a : α}
    (h : Runs eff prog s evs a s') :
    Runs eff' prog (view s) (evs.map (Event.map view)) a (view s') := by
  induction h with
  | done a s => exact .done a (view s)
  | @ok op next s s' evs a _ ih =>
    have hrun := respects op s
    have hres : (eff op s).1 = (eff' op (view s)).1 := congrArg Prod.fst hrun
    have hview : view (eff op s).2 = (eff' op (view s)).2 := congrArg Prod.snd hrun
    rw [hres, hview] at ih
    simp only [List.map_cons, Event.map, hview]
    exact .ok ih
  | fail e _ ih => exact .fail e ih

/-- The weakest precondition over all choices of failures. -/
def wp (eff : (op : Op) → S → Res op × S) (ok : Op → S → Prop) :
    OpProg Op Res Err α → (List (Event Op Err S) → α → S → Prop) → S → Prop
  | done a, post, s => post [] a s
  | call op next, post, s =>
      ok op s ∧
        wp eff ok (next (.ok (eff op s).1))
          (fun evs => post (⟨op, none, (eff op s).2⟩ :: evs)) (eff op s).2 ∧
        ∀ e, wp eff ok (next (.error e)) (fun evs => post (⟨op, some e, s⟩ :: evs)) s

variable {eff : (op : Op) → S → Res op × S} {ok : Op → S → Prop}
variable {post post' : List (Event Op Err S) → α → S → Prop} {s s' : S}

@[simp] theorem wp_done (a : α) : wp eff ok (done a) post s ↔ post [] a s := Iff.rfl

theorem wp_call {op : Op} {next : Except Err (Res op) → OpProg Op Res Err α} :
    wp eff ok (call op next) post s ↔
      ok op s ∧
        wp eff ok (next (.ok (eff op s).1))
          (fun evs => post (⟨op, none, (eff op s).2⟩ :: evs)) (eff op s).2 ∧
        ∀ e, wp eff ok (next (.error e)) (fun evs => post (⟨op, some e, s⟩ :: evs)) s := Iff.rfl

theorem wp_mono {prog : OpProg Op Res Err α} (h : wp eff ok prog post s)
    (himp : ∀ evs a s', post evs a s' → post' evs a s') : wp eff ok prog post' s := by
  induction prog generalizing post post' s with
  | done a => exact himp [] a s h
  | call op next ih =>
    obtain ⟨hok, hnext, hfail⟩ := h
    exact ⟨hok, ih _ hnext fun evs => himp _, fun e => ih _ (hfail e) fun evs => himp _⟩

theorem wp_weaken {ok' : Op → S → Prop} {prog : OpProg Op Res Err α}
    (h : wp eff ok prog post s) (himp : ∀ op s, ok op s → ok' op s) :
    wp eff ok' prog post s := by
  induction prog generalizing post s with
  | done a => exact h
  | call op next ih =>
    obtain ⟨hok, hnext, hfail⟩ := h
    exact ⟨himp op s hok, ih _ hnext, fun e => ih _ (hfail e)⟩

theorem wp_bind {prog : OpProg Op Res Err α} {f : α → OpProg Op Res Err β}
    {post : List (Event Op Err S) → β → S → Prop} :
    wp eff ok (prog >>= f) post s ↔
      wp eff ok prog
        (fun evs a s' => wp eff ok (f a) (fun evs' => post (evs ++ evs')) s') s := by
  induction prog generalizing post s with
  | done a => exact Iff.rfl
  | call op next ih =>
    rw [call_bind, wp_call, wp_call]
    simp only [ih, List.cons_append]

/-- An invariant that the admitted operations keep holds at the end. -/
theorem wp_keeping {inv : S → Prop} (keeps : ∀ op s, inv s → ok op s → inv (eff op s).2)
    {prog : OpProg Op Res Err α} (h : wp eff ok prog post s) (hs : inv s) :
    wp eff ok prog (fun evs a s' => post evs a s' ∧ inv s') s := by
  induction prog generalizing post s with
  | done a => exact ⟨h, hs⟩
  | call op next ih =>
    obtain ⟨hok, hnext, hfail⟩ := h
    exact ⟨hok, ih _ hnext (keeps op s hs hok), fun e => ih _ (hfail e) hs⟩

/-- One program runs after the other. -/
theorem Runs.bind {prog : OpProg Op Res Err α} {f : α → OpProg Op Res Err β} {s₁ : S}
    {evs evs₂ : List (Event Op Err S)} {a : α} {b : β} (h : Runs eff prog s evs a s₁)
    (rest : Runs eff (f a) s₁ evs₂ b s') : Runs eff (prog >>= f) s (evs ++ evs₂) b s' := by
  induction h with
  | done a s => exact rest
  | ok _ ih => exact .ok (ih rest)
  | fail e _ ih => exact .fail e (ih rest)

/-- A run of two programs, one after the other. -/
theorem Runs.bind_inv {prog : OpProg Op Res Err α} {f : α → OpProg Op Res Err β}
    {evs : List (Event Op Err S)} {b : β} (h : Runs eff (prog >>= f) s evs b s') :
    ∃ evs₁ a s₁ evs₂, Runs eff prog s evs₁ a s₁ ∧ Runs eff (f a) s₁ evs₂ b s' ∧
      evs = evs₁ ++ evs₂ := by
  induction prog generalizing s evs with
  | done a => exact ⟨[], a, s, evs, .done a s, h, rfl⟩
  | call op next ih =>
    rw [call_bind] at h
    cases h with
    | ok h =>
      obtain ⟨evs₁, a, s₁, evs₂, first, rest, rfl⟩ := ih _ h
      exact ⟨_, a, s₁, evs₂, .ok first, rest, rfl⟩
    | fail e h =>
      obtain ⟨evs₁, a, s₁, evs₂, first, rest, rfl⟩ := ih _ h
      exact ⟨_, a, s₁, evs₂, .fail e first, rest, rfl⟩

/-- Every run of a program ends as its precondition says. -/
theorem wp_sound {prog : OpProg Op Res Err α} {evs : List (Event Op Err S)} {a : α}
    (h : wp eff ok prog post s) (hrun : Runs eff prog s evs a s') : post evs a s' := by
  induction hrun generalizing post with
  | done a s => exact h
  | ok _ ih => exact ih h.2.1
  | fail e _ ih => exact ih (h.2.2 e)

/-- Where `ok` admits only operations that keep an invariant, the invariant holds
after every single operation of every run. -/
theorem wp_invariant {inv : S → Prop} (keeps : ∀ op s, inv s → ok op s → inv (eff op s).2)
    {prog : OpProg Op Res Err α} {evs : List (Event Op Err S)} {a : α} (hs : inv s)
    (h : wp eff ok prog post s) (hrun : Runs eff prog s evs a s') :
    (∀ ev ∈ evs, inv ev.after) ∧ inv s' := by
  induction hrun generalizing post with
  | done a s => exact ⟨by simp, hs⟩
  | @ok op next s s' evs a _ ih =>
    have hnext := keeps op s hs h.1
    obtain ⟨hall, hend⟩ := ih hnext h.2.1
    refine ⟨?_, hend⟩
    intro ev hev
    rcases List.mem_cons.mp hev with rfl | hev
    · exact hnext
    · exact hall ev hev
  | fail e _ ih =>
    obtain ⟨hall, hend⟩ := ih hs (h.2.2 e)
    refine ⟨?_, hend⟩
    intro ev hev
    rcases List.mem_cons.mp hev with rfl | hev
    · exact hs
    · exact hall ev hev

end OpProg

end VmWatcher
