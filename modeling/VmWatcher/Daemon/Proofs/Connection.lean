import Mathlib.Data.List.Nodup
import VmWatcher.Daemon.Connection
import VmWatcher.Misc.Trace

/-!
# What a connection writes

However the bytes of the client arrive and whenever the reply is written, the connection
writes what its loop sends for the whole frames of the stream, one after the other. A length
over the limit is its last item.
-/

namespace VmWatcher

open Framing Ipc

variable {wire : Wire} {engine : Asked}

/-! ### The loop -/

namespace Served

/-- One has served what the other has, and maybe more. -/
structure Extends (s s' : Served) : Prop where
  out : s.out <+: s'.out
  asked : s.asked <+: s'.asked

theorem Extends.refl (s : Served) : s.Extends s := ⟨List.prefix_rfl, List.prefix_rfl⟩

theorem Extends.trans {s s' s'' : Served} (h : s.Extends s') (h' : s'.Extends s'') :
    s.Extends s'' := ⟨h.out.trans h'.out, h.asked.trans h'.asked⟩

theorem handleFrame_asked (asked : List Request) (item : Except String Bytes) :
    asked <+: (handleFrame wire engine asked item).asked := by
  unfold handleFrame
  cases item with
  | error e => exact List.prefix_rfl
  | ok body =>
    dsimp only
    cases decode wire.request body with
    | error e => exact List.prefix_rfl
    | ok req =>
      dsimp only
      cases engine asked.length req <;> exact List.prefix_append _ _

theorem handle_extends (s : Served) (item : Except String Bytes) :
    s.Extends (handle wire engine s item) := by
  unfold handle
  split
  · exact ⟨List.prefix_append _ _, handleFrame_asked _ _⟩
  · exact .refl s

theorem foldl_extends (wire : Wire) (engine : Asked) (items : List (Except String Bytes)) (s : Served) :
    s.Extends (items.foldl (handle wire engine) s) := by
  induction items generalizing s with
  | nil => exact .refl s
  | cons item items ih => exact (handle_extends s item).trans (ih _)

theorem serve_append (items more : List (Except String Bytes)) :
    serve wire engine (items ++ more) = more.foldl (handle wire engine) (serve wire engine items) :=
  List.foldl_append

/-- The loop over these frames, and over an error behind them. -/
def served (wire : Wire) (engine : Asked) (bodies : List Bytes) (error : Option String) : Served :=
  serve wire engine (bodies.map .ok ++ (error.map Except.error).toList)

/-- The request of an item. -/
def request? (wire : Wire) : Except String Bytes → Option Request
  | .error _ => none
  | .ok body => (decode wire.request body).toOption

theorem foldl_of_not_live {s : Served} (h : s.live = false) (items : List (Except String Bytes)) :
    items.foldl (handle wire engine) s = s := by
  induction items with
  | nil => rfl
  | cons item items ih =>
    have still : handle wire engine s item = s := by simp [handle, h]
    rw [List.foldl_cons, still, ih]

/-- The engine is asked what the items ask for, in their order. -/
theorem foldl_asked (wire : Wire) (engine : Asked) (items : List (Except String Bytes)) (s : Served) :
    (items.foldl (handle wire engine) s).asked <+: s.asked ++ items.filterMap (request? wire) := by
  induction items generalizing s with
  | nil => simp
  | cons item items ih =>
    cases live : s.live with
    | false =>
      rw [foldl_of_not_live live]
      exact List.prefix_append _ _
    | true =>
      have turn : (handle wire engine s item).asked ++ items.filterMap (request? wire) =
          s.asked ++ (item :: items).filterMap (request? wire) := by
        simp only [handle, live, if_true, handleFrame]
        cases item with
        | error e => rfl
        | ok body =>
          dsimp only
          cases hreq : decode wire.request body with
          | error e => simp [request?, hreq, Except.toOption]
          | ok req =>
            dsimp only
            cases engine s.asked.length req <;> simp [request?, hreq, Except.toOption]
      exact turn ▸ ih _

theorem served_none (bodies : List Bytes) :
    served wire engine bodies none = serve wire engine (bodies.map .ok) := by
  simp [served]

theorem served_body (bodies : List Bytes) (body : Bytes) :
    served wire engine (bodies ++ [body]) none =
      handle wire engine (served wire engine bodies none) (.ok body) := by
  rw [served_none, served_none, List.map_append, serve_append]
  rfl

theorem served_error (bodies : List Bytes) (e : String) :
    served wire engine bodies (some e) =
      handle wire engine (served wire engine bodies none) (.error e) := by
  rw [served_none, served, serve_append]
  rfl

theorem served_error_live (bodies : List Bytes) (e : String) :
    (served wire engine bodies (some e)).live = false := by
  rw [served_error, handle]
  split
  · rfl
  · rename_i dead
    simpa using dead

/-- More frames are served behind, if there is no error. -/
theorem served_extends (bodies more : List Bytes) :
    (served wire engine bodies none).Extends (served wire engine (bodies ++ more) none) := by
  rw [served_none, served_none, List.map_append, serve_append]
  exact foldl_extends wire engine _ _

/-- A loop that has ended serves nothing more. -/
theorem served_of_not_live {bodies : List Bytes}
    (h : (served wire engine bodies none).live = false) (more : List Bytes)
    (error : Option String) :
    served wire engine (bodies ++ more) error = served wire engine bodies none := by
  rw [served_none] at h ⊢
  rw [served, List.map_append, List.append_assoc, serve_append, foldl_of_not_live h]

theorem served_asked (bodies : List Bytes) (error : Option String) :
    (served wire engine bodies error).asked <+:
      bodies.filterMap fun body => (decode wire.request body).toOption := by
  have asked := foldl_asked wire engine
    (bodies.map .ok ++ (error.map Except.error).toList) {}
  have silent : ((error.map Except.error).toList).filterMap (request? wire) = [] := by
    cases error <;> rfl
  rw [List.filterMap_append, silent, List.append_nil, List.filterMap_map] at asked
  exact asked

end Served

/-- A codec of a few messages. -/
def Ipc.Serde.among {α : Type} [DecidableEq α] (rows : List (α × Bytes)) : Serde α where
  toVec v :=
    match rows.find? (·.1 = v) with
    | some row => .ok row.2
    | none => .error "key must be a string"
  fromSlice body :=
    match rows.find? (·.2 = body) with
    | some row => .ok row.1
    | none => .error "expected value at line 1 column 1"

theorem Ipc.Serde.among_faithful {α : Type} [DecidableEq α] {rows : List (α × Bytes)}
    (distinct : (rows.map Prod.snd).Nodup) {v : α} {body : Bytes}
    (h : (among rows).toVec v = .ok body) :
    (v, body) ∈ rows ∧ (among rows).fromSlice body = .ok v := by
  simp only [among] at h ⊢
  cases hrow : rows.find? (·.1 = v) with
  | none => simp [hrow] at h
  | some row =>
    simp only [hrow, Except.ok.injEq] at h
    obtain rfl : row.1 = v := by simpa using List.find?_some hrow
    subst h
    have mem := List.mem_of_find?_eq_some hrow
    refine ⟨mem, ?_⟩
    cases hback : rows.find? (·.2 = row.2) with
    | none => simpa using List.find?_eq_none.mp hback row mem
    | some row' =>
      have text : row'.2 = row.2 := by simpa using List.find?_some hback
      have same := List.inj_on_of_nodup_map distinct (List.mem_of_find?_eq_some hback) mem text
      rw [same]

/-! ### Chunks and turns -/

namespace Connection

open Served

/-- The bytes an event reads. -/
def Event.received : Event → Bytes
  | .receive chunk => chunk
  | _ => []

/-- The bytes an event writes. -/
def Event.sent (c : Connection wire) : Event → Bytes
  | .write n => c.unsent.take n
  | _ => []

variable {c c' : Connection wire}

theorem step_streams {event : Event} (hstep : c.step wire engine event = some c') :
    c'.input = c.input ++ event.received ∧ c'.written = c.written ++ event.sent c ∧
      (event ≠ .close → c'.closed = c.closed) := by
  cases event with
  | receive chunk =>
    simp only [step, Option.ite_none_right_eq_some, Option.some.injEq] at hstep
    obtain ⟨-, rfl⟩ := hstep
    exact ⟨rfl, (List.append_nil _).symm, fun _ => rfl⟩
  | close =>
    simp only [step, Option.ite_none_right_eq_some, Option.some.injEq] at hstep
    obtain ⟨-, rfl⟩ := hstep
    exact ⟨(List.append_nil _).symm, (List.append_nil _).symm, fun other => absurd rfl other⟩
  | next =>
    simp only [step, Option.ite_none_right_eq_some] at hstep
    obtain ⟨-, hstep⟩ := hstep
    split at hstep
    all_goals
      obtain rfl := Option.some.inj hstep
      exact ⟨(List.append_nil _).symm, (List.append_nil _).symm, fun _ => rfl⟩
  | write n =>
    obtain rfl := Option.some.inj hstep
    exact ⟨(List.append_nil _).symm, rfl, fun _ => rfl⟩
  | fail =>
    obtain rfl := Option.some.inj hstep
    exact ⟨(List.append_nil _).symm, (List.append_nil _).symm, fun _ => rfl⟩

/-- The connection has taken these frames off its stream, and maybe an error behind them, and
done what the loop does with them. The rest of what it has read is still there. -/
structure Takes (engine : Asked) (held : wire.requests.State → Bytes) (c : Connection wire)
    (done : List Bytes) (fault : Option String) (buf : Bytes) : Prop where
  stream : c.input = done.flatMap frame ++ buf
  fits : ∀ body ∈ done, body.length ≤ maxRequestFrame
  refused : fault.isSome → ¬ Whole maxRequestFrame buf ∧ (Over maxRequestFrame buf ∨ c.closed = true)
  asked : c.asked = (served wire engine done fault).asked
  most : c.written ++ c.unsent <+: (served wire engine done fault).out
  all : c.failed = false → c.written ++ c.unsent = (served wire engine done fault).out
  goes : c.live = true → held c.reader = buf ∧ fault = none ∧ c.failed = false ∧
    (served wire engine done fault).live = true
  ended : c.live = false → c.failed = false → (served wire engine done fault).live = false ∨
    c.closed = true ∧ ¬ Whole maxRequestFrame buf ∧ ¬ Over maxRequestFrame buf

variable {held : wire.requests.State → Bytes} {done : List Bytes} {fault : Option String} {buf : Bytes}

/-- Within the limit of requests, lengths are those of their four bytes. -/
theorem maxRequestFrame_lt : maxRequestFrame < 2 ^ 32 := by decide

theorem Takes.start (lawful : wire.requests.Lawful maxRequestFrame held) :
    Takes engine held ({} : Connection wire) [] none [] :=
  ⟨rfl, nofun, nofun, rfl, List.prefix_rfl, fun _ => rfl, fun _ => ⟨lawful.new, rfl, rfl, rfl⟩,
    nofun⟩

/-- An item is served with what was served before. -/
theorem Takes.handle_eq (h : c.Takes engine held done fault buf) (live : c.live = true)
    (idle : c.unsent = []) (item : Except String Bytes) :
    handle wire engine (served wire engine done none) item =
      ⟨c.written ++ (handleFrame wire engine c.asked item).out,
        (handleFrame wire engine c.asked item).live,
        (handleFrame wire engine c.asked item).asked⟩ := by
  obtain ⟨-, rfl, clean, going⟩ := h.goes live
  have out := h.all clean
  rw [idle, List.append_nil] at out
  rw [handle, if_pos going, h.asked, out]

/-- A frame is taken and served. -/
theorem Takes.body (h : c.Takes engine held done fault buf) (live : c.live = true)
    (idle : c.unsent = []) {body rest : Bytes} (whole : buf = frame body ++ rest)
    (fits : body.length ≤ maxRequestFrame) {reader : wire.requests.State}
    (behind : held reader = rest) :
    Takes engine held { c with
        reader
        unsent := (handleFrame wire engine c.asked (.ok body)).out
        live := (handleFrame wire engine c.asked (.ok body)).live
        asked := (handleFrame wire engine c.asked (.ok body)).asked } (done ++ [body]) none rest := by
  have did := (served_body done body).trans (h.handle_eq live idle (.ok body))
  obtain ⟨-, rfl, clean, -⟩ := h.goes live
  refine ⟨?_, ?_, nofun, ?_, ?_, fun _ => ?_, fun live' => ⟨behind, rfl, clean, ?_⟩,
    fun live' _ => .inl ?_⟩
  · rw [h.stream, whole, List.flatMap_append, List.append_assoc]
    simp
  · exact List.forall_mem_append.mpr ⟨h.fits, List.forall_mem_singleton.mpr fits⟩
  · rw [did]
  · exact did ▸ List.prefix_rfl
  · rw [did]
  · rw [did]
    exact live'
  · rw [did]
    exact live'

/-- An error is the last item that is served. -/
theorem Takes.refusal (h : c.Takes engine held done fault buf) (live : c.live = true)
    (idle : c.unsent = []) (stops : ¬ Whole maxRequestFrame buf)
    (cause : Over maxRequestFrame buf ∨ c.closed = true) (e : String)
    (reader : wire.requests.State) :
    Takes engine held { c with
        reader
        unsent := (handleFrame wire engine c.asked (.error e)).out
        live := (handleFrame wire engine c.asked (.error e)).live
        asked := (handleFrame wire engine c.asked (.error e)).asked } done (some e) buf := by
  have did := (served_error done e).trans (h.handle_eq live idle (.error e))
  refine ⟨h.stream, h.fits, fun _ => ⟨stops, cause⟩, ?_, ?_, fun _ => ?_, nofun, fun _ _ => .inl ?_⟩
  · rw [did]
  · exact did ▸ List.prefix_rfl
  · rw [did]
  · rw [did]
    rfl

/-- What `requests.next()` finds, and what comes of it. -/
theorem Takes.next (h : c.Takes engine held done fault buf)
    (lawful : wire.requests.Lawful maxRequestFrame held) (live : c.live = true)
    (idle : c.unsent = []) (hstep : c.step wire engine .next = some c') :
    ∃ done' fault' buf', c'.Takes engine held done' fault' buf' := by
  obtain ⟨there, rfl, clean, going⟩ := h.goes live
  simp only [step, Option.ite_none_right_eq_some] at hstep
  obtain ⟨-, hstep⟩ := hstep
  have nothing {reader : wire.requests.State} (same : held reader = buf)
      (quiet : ¬ Whole maxRequestFrame buf ∧ ¬ Over maxRequestFrame buf) :
      Takes engine held { c with reader, live := !c.closed } done none buf := by
    refine ⟨h.stream, h.fits, nofun, h.asked, h.most, h.all, fun _ => ⟨same, rfl, clean, going⟩,
      fun ended _ => .inr ⟨by simpa using ended, quiet⟩⟩
  by_cases whole : Whole maxRequestFrame buf
  · obtain ⟨body, rest, starts, fits⟩ := whole
    obtain ⟨reader, next, behind⟩ := lawful.whole c.reader c.closed body rest (there.trans starts) fits
    rw [next] at hstep
    obtain rfl := Option.some.inj hstep
    exact ⟨_, _, _, h.body live idle starts fits behind⟩
  by_cases exceeds : Over maxRequestFrame buf
  · obtain ⟨reader, e, next⟩ := lawful.exceeds c.reader c.closed (there ▸ exceeds)
    rw [next] at hstep
    obtain rfl := Option.some.inj hstep
    exact ⟨_, _, _, h.refusal live idle whole (.inl exceeds) e reader⟩
  · cases hclosed : c.closed with
    | false =>
      obtain ⟨reader, next, same⟩ :=
        lawful.waits c.reader false (there ▸ whole) (there ▸ exceeds) (.inl rfl)
      rw [hclosed, next] at hstep
      obtain rfl := Option.some.inj hstep
      have quiet := nothing (same.trans there) ⟨whole, exceeds⟩
      rw [hclosed] at quiet
      exact ⟨_, _, _, quiet⟩
    | true =>
      obtain ⟨reader, next | ⟨e, next⟩⟩ := lawful.cut c.reader (there ▸ whole) (there ▸ exceeds)
      · rw [hclosed, next] at hstep
        obtain rfl := Option.some.inj hstep
        refine ⟨done, none, buf, h.stream, h.fits, nofun, h.asked, h.most, h.all, nofun,
          fun _ _ => .inr ⟨rfl, whole, exceeds⟩⟩
      · rw [hclosed, next] at hstep
        obtain rfl := Option.some.inj hstep
        have last := h.refusal live idle whole (.inr hclosed) e reader
        rw [hclosed] at last
        exact ⟨_, _, _, last⟩

theorem Takes.step (h : c.Takes engine held done fault buf)
    (lawful : wire.requests.Lawful maxRequestFrame held) {event : Event}
    (hstep : c.step wire engine event = some c') :
    ∃ done' fault' buf', c'.Takes engine held done' fault' buf' := by
  cases event with
  | receive chunk =>
    simp only [Connection.step, Option.ite_none_right_eq_some, Option.some.injEq] at hstep
    obtain ⟨⟨live, -, -⟩, rfl⟩ := hstep
    obtain ⟨there, rfl, clean, going⟩ := h.goes live
    refine ⟨done, none, buf ++ chunk, ?_, h.fits, nofun, h.asked, h.most, h.all, fun _ => ?_, ?_⟩
    · dsimp only
      rw [h.stream, List.append_assoc]
    · exact ⟨by rw [lawful.receive, there], rfl, clean, going⟩
    · intro ended
      exact absurd (live.symm.trans ended) nofun
  | close =>
    simp only [Connection.step, Option.ite_none_right_eq_some, Option.some.injEq] at hstep
    obtain ⟨-, rfl⟩ := hstep
    exact ⟨done, fault, buf, h.stream, h.fits, fun some => ⟨(h.refused some).1, .inr rfl⟩, h.asked,
      h.most, h.all, h.goes, fun ended clean =>
        (h.ended ended clean).imp_right fun last => ⟨rfl, last.2⟩⟩
  | next =>
    have may := hstep
    simp only [Connection.step, Option.ite_none_right_eq_some] at may
    exact h.next lawful may.1.1 may.1.2 hstep
  | write n =>
    simp only [Connection.step, Option.some.injEq] at hstep
    subst hstep
    have same : c.written ++ c.unsent.take n ++ c.unsent.drop n = c.written ++ c.unsent := by
      rw [List.append_assoc, List.take_append_drop]
    refine ⟨done, fault, buf, h.stream, h.fits, h.refused, h.asked, ?_, fun clean => ?_, h.goes,
      h.ended⟩
    · exact same.symm ▸ h.most
    · exact same.trans (h.all clean)
  | fail =>
    simp only [Connection.step, Option.some.injEq] at hstep
    subst hstep
    refine ⟨done, fault, buf, h.stream, h.fits, h.refused, h.asked, ?_, nofun, nofun, nofun⟩
    rw [List.append_nil]
    exact (List.prefix_append _ _).trans h.most

theorem run_takes (lawful : wire.requests.Lawful maxRequestFrame held) {events : List Event}
    (h : run wire engine events = some c) :
    ∃ done fault buf, c.Takes engine held done fault buf := by
  refine foldlM_keeps (p := fun c => ∃ done fault buf, Takes engine held c done fault buf) ?_
    ⟨_, _, _, .start lawful⟩ h
  intro c event c' takes hstep
  obtain ⟨done, fault, buf, takes⟩ := takes
  exact takes.step lawful hstep

/-! ### Frames that are there -/

/-- Nothing of a reply is left to write, and there is no further item. -/
structure Waits (c : Connection wire) : Prop where
  live : c.live = true
  unsent : c.unsent = []
  next : (wire.requests.next c.reader c.closed).2 = none

/-- A connection that waits has no whole frame left, nor a length over the limit. -/
theorem Waits.quiet (waits : c.Waits) (lawful : wire.requests.Lawful maxRequestFrame held) :
    ¬ Whole maxRequestFrame (held c.reader) ∧ ¬ Over maxRequestFrame (held c.reader) := by
  have next := waits.next
  constructor
  · intro whole
    obtain ⟨body, rest, starts, fits⟩ := whole
    obtain ⟨reader, item, -⟩ := lawful.whole c.reader c.closed body rest starts fits
    simp [item] at next
  · intro exceeds
    obtain ⟨reader, e, item⟩ := lawful.exceeds c.reader c.closed exceeds
    simp [item] at next

/-- A connection that goes on by itself: it looks for requests and writes replies. -/
inductive Turns (engine : Asked) : Connection wire → Connection wire → Prop where
  | refl (c : Connection wire) : Turns engine c c
  | next {c c' c'' : Connection wire} : c.step wire engine .next = some c' → Turns engine c' c'' →
      Turns engine c c''
  | write {c c' c'' : Connection wire} (n : ℕ) : c.step wire engine (.write n) = some c' →
      Turns engine c' c'' → Turns engine c c''

theorem Turns.run (h : Turns engine c c') :
    ∃ more : List Event, more.foldlM (step wire engine) c = some c' := by
  induction h with
  | refl c => exact ⟨[], rfl⟩
  | next first _ ih =>
    obtain ⟨more, run⟩ := ih
    exact ⟨.next :: more, by rw [List.foldlM_cons, first]; exact run⟩
  | write n first _ ih =>
    obtain ⟨more, run⟩ := ih
    exact ⟨.write n :: more, by rw [List.foldlM_cons, first]; exact run⟩

/-- All of a reply is written. -/
theorem step_write_all (c : Connection wire) : c.step wire engine (.write c.unsent.length) =
    some { c with unsent := [], written := c.written ++ c.unsent } := by
  simp [step]

/-- A connection comes to where it waits, or to its end: each frame it takes leaves it less to
read. -/
theorem Takes.drains (h : c.Takes engine held done fault buf)
    (lawful : wire.requests.Lawful maxRequestFrame held) :
    ∃ c', Turns engine c c' ∧ c'.unsent = [] ∧ c'.input = c.input ∧ c'.closed = c.closed ∧
      c'.failed = c.failed ∧ (c'.live = true → c'.Waits) := by
  induction hlen : (held c.reader).length using Nat.strongRecOn generalizing c done fault buf with
  | ind n ih =>
    subst hlen
    obtain ⟨_, _, _, h⟩ := h.step lawful (step_write_all c)
    suffices ∃ c', Turns engine { c with unsent := [], written := c.written ++ c.unsent } c' ∧
        c'.unsent = [] ∧ c'.input = c.input ∧ c'.closed = c.closed ∧ c'.failed = c.failed ∧
        (c'.live = true → c'.Waits) by
      obtain ⟨c', turns, rest⟩ := this
      exact ⟨c', .write _ (step_write_all c) turns, rest⟩
    by_cases waits : Waits { c with unsent := [], written := c.written ++ c.unsent }
    · exact ⟨_, .refl _, rfl, rfl, rfl, rfl, fun _ => waits⟩
    by_cases hlive : c.live = true
    · have there := (h.goes hlive).1
      cases hnext : wire.requests.next c.reader c.closed with
      | mk reader item =>
        cases item with
        | none => exact absurd ⟨hlive, rfl, by rw [hnext]⟩ waits
        | some item =>
          have next : Connection.step wire engine { c with unsent := [], written := c.written ++ c.unsent }
              .next = some { c with
                reader
                unsent := (handleFrame wire engine c.asked item).out
                live := (handleFrame wire engine c.asked item).live
                asked := (handleFrame wire engine c.asked item).asked
                written := c.written ++ c.unsent } := by
            simp [Connection.step, hlive, hnext]
          obtain ⟨_, _, _, after⟩ := h.step lawful next
          cases item with
          | error e =>
            -- the loop ends with the error
            obtain ⟨_, _, _, last⟩ := after.step lawful (step_write_all _)
            exact ⟨_, .next next (.write _ (step_write_all _) (.refl _)), rfl, rfl, rfl, rfl, nofun⟩
          | ok body =>
            have less : (held reader).length < (held c.reader).length := by
              by_cases whole : Whole maxRequestFrame (held c.reader)
              · obtain ⟨body', rest, starts, fits⟩ := whole
                obtain ⟨reader', item', behind⟩ :=
                  lawful.whole c.reader c.closed body' rest starts fits
                obtain ⟨rfl, -⟩ := Prod.mk.inj (hnext.symm.trans item')
                rw [behind, starts, List.length_append, length_frame]
                omega
              by_cases exceeds : Over maxRequestFrame (held c.reader)
              · obtain ⟨reader', e, item'⟩ := lawful.exceeds c.reader c.closed exceeds
                cases hnext.symm.trans item'
              · cases hclosed : c.closed with
                | false =>
                  obtain ⟨reader', item', -⟩ := lawful.waits c.reader false whole exceeds (.inl rfl)
                  rw [hclosed] at hnext
                  cases hnext.symm.trans item'
                | true =>
                  rw [hclosed] at hnext
                  obtain ⟨reader', item' | ⟨e, item'⟩⟩ := lawful.cut c.reader whole exceeds
                  · cases hnext.symm.trans item'
                  · cases hnext.symm.trans item'
            obtain ⟨c', turns, idle, input, closed, failed, last⟩ := ih _ less after rfl
            exact ⟨c', .next next turns, idle, input, closed, failed, last⟩
    · exact ⟨_, .refl _, rfl, rfl, rfl, rfl, fun live => absurd live hlive⟩

variable {more : List Bytes} {rest : Bytes}

/-- What is served of all frames, next to what was. -/
theorem Takes.extends (h : c.Takes engine held done fault buf)
    (behind : Splits maxRequestFrame buf more rest) :
    (served wire engine done fault).Extends (served wire engine (done ++ more) fault) := by
  cases fault with
  | none => exact served_extends done more
  | some e =>
    obtain ⟨rfl, -⟩ := behind.eq_nil (h.refused rfl).1
    rw [List.append_nil]
    exact .refl _

/-- A connection that has come to its end has served all that is ever served. -/
theorem Takes.complete (h : c.Takes engine held done fault buf)
    (behind : Splits maxRequestFrame buf more rest) (ended : c.live = false)
    (clean : c.failed = false) :
    served wire engine (done ++ more) fault = served wire engine done fault := by
  have last (stops : ¬ Whole maxRequestFrame buf) :
      served wire engine (done ++ more) fault = served wire engine done fault := by
    obtain ⟨rfl, -⟩ := behind.eq_nil stops
    rw [List.append_nil]
  rcases h.ended ended clean with dead | ⟨-, stops, -⟩
  · cases fault with
    | none => exact served_of_not_live dead more none
    | some e => exact last (h.refused rfl).1
  · exact last stops

theorem Takes.not_over_of_waits (h : c.Takes engine held done fault buf)
    (lawful : wire.requests.Lawful maxRequestFrame held)
    (behind : Splits maxRequestFrame buf more rest) (waits : c.Waits) :
    more = [] ∧ ¬ Over maxRequestFrame rest := by
  obtain ⟨stops, within⟩ := waits.quiet lawful
  rw [(h.goes waits.live).1] at stops within
  obtain ⟨rfl, rfl⟩ := behind.eq_nil stops
  exact ⟨rfl, within⟩

/-- The end of a connection whose stream has a length over the limit. -/
theorem Takes.exceeds (h : c.Takes engine held done fault buf)
    (behind : Splits maxRequestFrame buf more rest) (exceeds : Over maxRequestFrame rest)
    (ended : c.live = false) (clean : c.failed = false) (idle : c.unsent = []) :
    ∃ e, served wire engine (done ++ more) (some e) = ⟨c.written, false, c.asked⟩ := by
  have own (dead : (served wire engine done fault).live = false) :
      served wire engine done fault = ⟨c.written, false, c.asked⟩ := by
    rw [h.asked, ← dead, ← List.append_nil c.written, ← idle, h.all clean]
  cases fault with
  | some e =>
    obtain ⟨rfl, -⟩ := behind.eq_nil (h.refused rfl).1
    exact ⟨e, by rw [List.append_nil, own (served_error_live done e)]⟩
  | none =>
    rcases h.ended ended clean with dead | ⟨-, stops, within⟩
    · exact ⟨"", by rw [served_of_not_live dead, own dead]⟩
    · obtain ⟨-, rfl⟩ := behind.eq_nil stops
      exact absurd exceeds within

/-- A daemon that refuses the first range. -/
def refusing : Asked := fun _ _ => some (.error "range index 0 out of bounds")

/-- The texts of the request, of the reply, and of the refusal of a length. -/
def requestText : Bytes := "\x7b\"type\":\"range_detail\",\"index\":0\x7d".toUTF8.data.toList

def refusalText : Bytes :=
  "\x7b\"type\":\"error\",\"message\":\"range index 0 out of bounds\"\x7d".toUTF8.data.toList

def rejectionText : Bytes :=
  "\x7b\"type\":\"error\",\"message\":\"request rejected: frame size too big\"\x7d".toUTF8.data.toList

def refusingWire : Wire where
  request := .among [(.rangeDetail 0, requestText)]
  response := .among [(.error "range index 0 out of bounds", refusalText),
    (.error "request rejected: frame size too big", rejectionText)]
  requests := .buffering maxRequestFrame
  send body := if body.length > maxResponseFrame then .error "frame size too big" else .ok (frame body)

end Connection

end VmWatcher
