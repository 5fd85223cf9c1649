import VmWatcher.Daemon.Proofs.Connection
import VmWatcher.Daemon.Responses
import VmWatcher.Ui.Client

/-!
# Calls and replies

A client that has a call under way has sent one request more than it has read replies, and
drops the connection when a call fails. So the reply a call returns is the one the daemon
made for its request, however the bytes of the two directions come and go.
-/

namespace VmWatcher

open Framing Ipc

variable {wire : Wire} {engine : Asked}

/-- What the code relies on: messages are read back as they were written, requests are small,
and a response that fits is sent as its frame. -/
structure Wire.Faithful (wire : Wire) : Prop where
  request : ∀ req body, wire.request.toVec req = .ok body → wire.request.fromSlice body = .ok req
  response : ∀ resp body, wire.response.toVec resp = .ok body →
    wire.response.fromSlice body = .ok resp
  small : ∀ req body, wire.request.toVec req = .ok body → body.length ≤ maxRequestFrame
  send : ∀ body, body.length ≤ maxResponseFrame → wire.send body = .ok (frame body)
  refuses : ∀ body, maxResponseFrame < body.length → ∃ e, wire.send body = .error e

/-! ### Streams of requests -/

/-- The bodies a connection sends for requests from the n-th on. -/
def Wire.replies (wire : Wire) (engine : Asked) : ℕ → List Request → List Bytes
  | _, [] => []
  | n, req :: reqs =>
    match engine n req with
    | none => []
    | some resp =>
      match wire.response.toVec resp with
      | .error _ => []
      | .ok body =>
        if body.length > maxResponseFrame then
          match wire.response.toVec (.error (Wire.tooLarge body.length)) with
          | .error _ => []
          | .ok errBody => if errBody.length > maxResponseFrame then [] else [errBody]
        else body :: wire.replies engine (n + 1) reqs

namespace Served

/-- Served request by request. -/
theorem foldl_requests (faithful : wire.Faithful) (engine : Asked) {reqs : List Request}
    {bodies : List Bytes}
    (decodes : List.Forall₂ (fun req body => decode wire.request body = .ok req) reqs bodies)
    (out : Bytes) (asked : List Request) :
    ((bodies.map .ok).foldl (handle wire engine) ⟨out, true, asked⟩).out =
      out ++ (wire.replies engine asked.length reqs).flatMap frame := by
  induction decodes generalizing out asked with
  | nil => simp [Wire.replies]
  | cons own rest ih =>
    rename_i req body reqs bodies
    rw [List.map_cons, List.foldl_cons, Wire.replies]
    simp only [handle, if_true, handleFrame, own]
    cases engine asked.length req with
    | none => simp [foldl_of_not_live]
    | some resp =>
      dsimp only
      simp only [Wire.sendResponse]
      cases wire.response.toVec resp with
      | error e => simp [foldl_of_not_live]
      | ok reply =>
        dsimp only
        by_cases large : reply.length > maxResponseFrame
        · simp only [if_pos large]
          cases wire.response.toVec (.error (Wire.tooLarge reply.length)) with
          | error e => simp [foldl_of_not_live]
          | ok errBody =>
            dsimp only
            by_cases larger : errBody.length > maxResponseFrame
            · obtain ⟨e, refused⟩ := faithful.refuses errBody larger
              simp only [refused, if_pos larger]
              rw [foldl_of_not_live rfl]
              simp
            · simp only [faithful.send errBody (Nat.not_lt.mp larger), if_neg larger]
              rw [foldl_of_not_live rfl]
              simp
        · simp only [if_neg large, faithful.send reply (Nat.not_lt.mp large)]
          rw [ih]
          simp

theorem filterMap_requests {reqs : List Request} {bodies : List Bytes}
    (decodes : List.Forall₂ (fun req body => decode wire.request body = .ok req) reqs bodies) :
    (bodies.map .ok).filterMap (request? wire) = reqs := by
  induction decodes with
  | nil => rfl
  | cons own _ ih =>
    have first : request? wire (.ok _) = some _ := congrArg Except.toOption own
    rw [List.map_cons, List.filterMap_cons_some first, ih]

end Served

/-! ### Replies -/

theorem Wire.length_replies (wire : Wire) (engine : Asked) (n : ℕ) (reqs : List Request) :
    (wire.replies engine n reqs).length ≤ reqs.length := by
  induction reqs generalizing n with
  | nil => exact Nat.le_refl 0
  | cons req reqs ih =>
    simp only [replies]
    repeat' split
    all_goals simp [ih]

/-- Within the limit of responses, lengths are those of their four bytes. -/
theorem maxResponseFrame_lt : maxResponseFrame < 2 ^ 32 := by decide

theorem Wire.replies_small {n : ℕ} {reqs : List Request} {body : Bytes}
    (h : body ∈ wire.replies engine n reqs) : body.length ≤ maxResponseFrame := by
  induction reqs generalizing n with
  | nil => cases h
  | cons req reqs ih =>
    simp only [replies] at h
    repeat' split at h
    all_goals simp only [List.mem_cons, List.not_mem_nil, or_false] at h
    · rw [h]
      omega
    · rcases h with rfl | h
      · omega
      · exact ih h

/-- A longer list of requests is answered alike. -/
theorem Wire.replies_append (n : ℕ) (reqs more : List Request) :
    wire.replies engine n reqs <+: wire.replies engine n (reqs ++ more) := by
  induction reqs generalizing n with
  | nil => exact List.nil_prefix
  | cons req reqs ih =>
    simp only [replies, List.cons_append]
    repeat' split
    all_goals first | exact List.prefix_rfl | exact List.cons_prefix_cons.mpr ⟨rfl, ih (n + 1)⟩

/-- What a client gets of an answer, if it can be written at all. -/
def Wire.delivered (wire : Wire) (answer : Response Float) :
    Option (Response Float) :=
  match wire.response.toVec answer with
  | .error _ => none
  | .ok body =>
    if body.length > maxResponseFrame then some (.error (tooLarge body.length)) else some answer

/-- The i-th reply is what is delivered of the answer to the i-th request. -/
theorem Wire.getElem?_replies {n i : ℕ} {reqs : List Request} {body : Bytes}
    (h : (wire.replies engine n reqs)[i]? = some body) :
    ∃ req answer resp, reqs[i]? = some req ∧ engine (n + i) req = some answer ∧
      wire.delivered answer = some resp ∧ wire.response.toVec resp = .ok body := by
  induction reqs generalizing n i with
  | nil => simp [replies] at h
  | cons req reqs ih =>
    rw [replies] at h
    cases hanswer : engine n req with
    | none => simp [hanswer] at h
    | some answer =>
      simp only [hanswer] at h
      cases hreply : wire.response.toVec answer with
      | error e => simp [hreply] at h
      | ok reply =>
        simp only [hreply] at h
        by_cases large : reply.length > maxResponseFrame
        · have sent : wire.delivered answer = some (.error (tooLarge reply.length)) := by
            simp [delivered, hreply, large]
          rw [if_pos large] at h
          cases herr : wire.response.toVec (.error (tooLarge reply.length)) with
          | error e => simp [herr] at h
          | ok errBody =>
            simp only [herr] at h
            split at h
            · simp at h
            · cases i with
              | zero =>
                obtain rfl : errBody = body := by simpa using h
                exact ⟨req, answer, _, rfl, hanswer, sent, herr⟩
              | succ i => simp at h
        · have sent : wire.delivered answer = some answer := by simp [delivered, hreply, large]
          rw [if_neg large] at h
          cases i with
          | zero =>
            obtain rfl : reply = body := by simpa using h
            exact ⟨req, answer, answer, rfl, hanswer, sent, hreply⟩
          | succ i =>
            obtain ⟨req', answer', resp, hreq, asked, rest⟩ := ih (List.getElem?_cons_succ ▸ h)
            exact ⟨req', answer', resp, by simpa using hreq, by
              rw [← asked]
              congr 1
              omega, rest⟩

/-- A call has its result once a whole frame is read. -/
theorem Client.result_ok {got : Bytes} {resp : Response Float}
    (h : Client.result wire got = some (.ok resp)) :
    ∃ body extra, got = frame body ++ extra ∧ body.length ≤ maxResponseFrame ∧
      decode wire.response body = .ok resp := by
  simp only [result, validateFrameLen] at h
  split at h
  · cases h
  · rename_i long
    split at h
    · cases h
    · rename_i len fits
      split at fits
      · cases fits
      · rename_i least
        obtain rfl := Except.ok.inj fits
        split at h
        · cases h
        · rename_i whole
          obtain ⟨starts, length⟩ := eq_frame_append (Nat.not_lt.mp whole)
          exact ⟨_, _, starts, length.trans_le (Nat.not_lt.mp least), Option.some.inj h⟩

/-! ### Links -/

namespace Link

open Served
open Connection (refusing refusingWire requestText refusalText)

/-- What the client has to do with the bytes of the two directions. -/
def InStep (l : Link wire) (bodies replies : List Bytes) : ClientPhase → Prop
  | .idle => l.calls = l.returned.map Prod.fst ∧
      l.daemon.input ++ l.up = bodies.flatMap frame ∧
      l.daemon.written = replies.flatMap frame ++ l.down
  | .calling req unsent got => l.calls = l.returned.map Prod.fst ++ [req] ∧
      l.daemon.input ++ l.up ++ unsent = bodies.flatMap frame ∧
      l.daemon.written = replies.flatMap frame ++ (got ++ l.down)
  | .dropped => ∃ under_way, l.calls = l.returned.map Prod.fst ++ under_way ∧ under_way.length ≤ 1

/-- A link whose requests have these bodies, and whose returned calls these replies. -/
structure Ok (engine : Asked) (held : wire.requests.State → Bytes) (l : Link wire)
    (bodies replies : List Bytes) : Prop where
  daemon : ∃ done fault buf, l.daemon.Takes engine held done fault buf
  reading : l.daemon.closed = false
  requests : List.Forall₂ (fun req body => wire.request.toVec req = .ok body) l.calls bodies
  sent : l.daemon.input ++ l.up <+: bodies.flatMap frame
  returned : List.Forall₂ (fun call body => decode wire.response body = .ok call.2)
    l.returned replies
  answered : replies <+: wire.replies engine 0 l.calls
  inStep : l.InStep bodies replies l.client

variable {held : wire.requests.State → Bytes} {l l' : Link wire} {bodies replies : List Bytes}

theorem Ok.start (lawful : wire.requests.Lawful maxRequestFrame held) :
    ({} : Link wire).Ok engine held [] [] :=
  ⟨⟨_, _, _, .start lawful⟩, rfl, .nil, List.nil_prefix, .nil, List.nil_prefix, rfl, rfl, rfl⟩

theorem Ok.decodes (h : l.Ok engine held bodies replies) (faithful : wire.Faithful) :
    List.Forall₂ (fun req body => decode wire.request body = .ok req) l.calls bodies := by
  refine h.requests.imp fun req body encoded => ?_
  rw [Ipc.decode, faithful.request req body encoded]
  rfl

theorem Ok.small (h : l.Ok engine held bodies replies) (faithful : wire.Faithful) :
    ∀ body ∈ bodies, body.length ≤ maxRequestFrame := by
  have requests := h.requests
  clear h
  generalize l.calls = calls at requests
  induction requests with
  | nil => exact nofun
  | cons encoded _ ih => exact List.forall_mem_cons.mpr ⟨faithful.small _ _ encoded, ih⟩

/-- The frames the daemon has taken are some of the requests, and it has refused none. -/
theorem Ok.taken (h : l.Ok engine held bodies replies) (faithful : wire.Faithful)
    {done : List Bytes} {fault : Option String} {buf : Bytes}
    (takes : l.daemon.Takes engine held done fault buf) :
    ∃ more, bodies = done ++ more ∧ buf <+: more.flatMap frame ∧ fault = none := by
  have small := h.small faithful
  have read : done.flatMap frame ++ buf <+: bodies.flatMap frame :=
    takes.stream ▸ (List.prefix_append _ _).trans h.sent
  have first : done <+: bodies := by
    refine prefix_of_flatMap_frame (fun body hbody => ?_) (fun body hbody => ?_) read
    · exact Nat.lt_of_le_of_lt (takes.fits body hbody) Connection.maxRequestFrame_lt
    · exact Nat.lt_of_le_of_lt (small body hbody) Connection.maxRequestFrame_lt
  obtain ⟨more, rfl⟩ := first
  have behind : buf <+: more.flatMap frame := by
    rw [List.flatMap_append, List.prefix_append_right_inj] at read
    exact read
  refine ⟨more, rfl, behind, Option.not_isSome_iff_eq_none.mp fun refused => ?_⟩
  have within : ¬ Over maxRequestFrame buf := not_over_of_prefix Connection.maxRequestFrame_lt
    (fun body hbody => small body (List.mem_append_right _ hbody)) behind
  rcases (takes.refused refused).2 with above | closed
  · exact within above
  · exact absurd (h.reading.symm.trans closed) nofun

/-- What is served of the requests. -/
theorem Ok.served (h : l.Ok engine held bodies replies) (faithful : wire.Faithful) :
    (served wire engine bodies none).out = (wire.replies engine 0 l.calls).flatMap frame := by
  have requests := foldl_requests faithful engine (h.decodes faithful) [] []
  rw [List.nil_append] at requests
  rw [served_none]
  exact requests

/-- The daemon has written some of the replies to the calls. -/
theorem Ok.written (h : l.Ok engine held bodies replies) (faithful : wire.Faithful) :
    l.daemon.written <+: (wire.replies engine 0 l.calls).flatMap frame := by
  obtain ⟨done, fault, buf, takes⟩ := h.daemon
  obtain ⟨more, rfl, -, rfl⟩ := h.taken faithful takes
  have all : (Served.served wire engine done none).out <+:
      (Served.served wire engine (done ++ more) none).out :=
    (served_extends done more).out
  rw [h.served faithful] at all
  exact (List.prefix_append _ _).trans (takes.most.trans all)

/-- The daemon asked for some of the calls. -/
theorem Ok.asked (h : l.Ok engine held bodies replies) (faithful : wire.Faithful) :
    l.daemon.asked <+: l.calls := by
  obtain ⟨done, fault, buf, takes⟩ := h.daemon
  obtain ⟨more, rfl, -, rfl⟩ := h.taken faithful takes
  have requests := filterMap_requests (h.decodes faithful)
  rw [List.filterMap_map] at requests
  rw [takes.asked, ← requests]
  exact (served_extends done more).asked.trans (served_asked _ none)

/-! ### Steps of a link -/

/-- What the daemon does keeps the link as long as no byte is lost. -/
theorem Ok.daemonStep (h : l.Ok engine held bodies replies)
    (lawful : wire.requests.Lawful maxRequestFrame held) {event : Connection.Event}
    {daemon : Connection wire} (hstep : l.daemon.step wire engine event = some daemon)
    (reading : event ≠ .close) {up : Bytes} (taken : event.received ++ up = l.up) :
    Ok engine held { l with daemon, up, down := l.down ++ event.sent l.daemon } bodies replies := by
  obtain ⟨input, written, closed⟩ := Connection.step_streams hstep
  have stream : daemon.input ++ up = l.daemon.input ++ l.up := by
    rw [input, List.append_assoc, taken]
  obtain ⟨done, fault, buf, takes⟩ := h.daemon
  refine ⟨takes.step lawful hstep, (closed reading).trans h.reading, h.requests, stream.symm ▸ h.sent,
    h.returned, h.answered, ?_⟩
  have inStep := h.inStep
  cases hclient : l.client with
  | idle =>
    rw [hclient] at inStep
    obtain ⟨calls, sent, received⟩ := inStep
    exact ⟨calls, stream.trans sent, by rw [written, received, List.append_assoc]⟩
  | calling req unsent got =>
    rw [hclient] at inStep
    obtain ⟨calls, sent, received⟩ := inStep
    refine ⟨calls, (congrArg (· ++ unsent) stream).trans sent, ?_⟩
    rw [written, received, List.append_assoc, List.append_assoc]
  | dropped =>
    rw [hclient] at inStep
    exact inStep

theorem Ok.dropped (h : l.Ok engine held bodies replies) :
    Ok engine held { l with client := .dropped } bodies replies := by
  refine ⟨h.daemon, h.reading, h.requests, h.sent, h.returned, h.answered, ?_⟩
  have inStep := h.inStep
  cases hclient : l.client with
  | idle =>
    rw [hclient] at inStep
    exact ⟨[], by simpa using inStep.1, Nat.zero_le 1⟩
  | calling req unsent got =>
    rw [hclient] at inStep
    exact ⟨[req], inStep.1, Nat.le_refl 1⟩
  | dropped =>
    rw [hclient] at inStep
    exact inStep

/-- The call returns: what it has read is the reply to its request. -/
theorem Ok.done (h : l.Ok engine held bodies replies) (faithful : wire.Faithful) {req : Request}
    {got : Bytes} (hclient : l.client = .calling req [] got) {resp : Response Float}
    (result : Client.result wire got = some (.ok resp)) :
    ∃ reply, Ok engine held
      { l with client := .idle, returned := l.returned ++ [(req, resp)] } bodies
      (replies ++ [reply]) := by
  obtain ⟨reply, extra, rfl, fit, decoded⟩ := Client.result_ok result
  have inStep := h.inStep
  rw [hclient] at inStep
  obtain ⟨calls, sent, received⟩ := inStep
  have written : (replies ++ [reply]).flatMap frame ++ (extra ++ l.down) <+:
      (wire.replies engine 0 l.calls).flatMap frame := by
    have same : (replies ++ [reply]).flatMap frame ++ (extra ++ l.down) = l.daemon.written := by
      simp [received]
    exact same ▸ h.written faithful
  have small := maxResponseFrame_lt
  have answered : replies ++ [reply] <+: wire.replies engine 0 l.calls := by
    refine prefix_of_flatMap_frame (fun body hbody => ?_) (fun body hbody => ?_) written
    · rcases List.mem_append.mp hbody with hbody | hbody
      · have := Wire.replies_small (h.answered.subset hbody)
        omega
      · rw [List.mem_singleton.mp hbody]
        omega
    · have := Wire.replies_small hbody
      omega
  -- there is no reply to a later call yet
  have all : replies ++ [reply] = wire.replies engine 0 l.calls := by
    refine answered.eq_of_length_le ?_
    have most := wire.length_replies engine 0 l.calls
    have returned := h.returned.length_eq
    rw [calls, List.length_append, List.length_map] at most
    rw [calls, List.length_append, ← returned]
    simpa using most
  have nothing : extra ++ l.down = [] := by
    rw [← all] at written
    exact List.prefix_nil.mp ((List.prefix_append_right_inj _).mp
      (by rw [List.append_nil]; exact written))
  refine ⟨reply, h.daemon, h.reading, h.requests, h.sent, ?_, answered, ?_, ?_, ?_⟩
  · exact List.rel_append h.returned (.cons decoded .nil)
  · simpa using calls
  · simpa using sent
  · rw [(List.append_eq_nil_iff.mp nothing).1] at received
    rw [received]
    simp

/-- A new call. -/
theorem Ok.call (h : l.Ok engine held bodies replies) (hclient : l.client = .idle) {req : Request}
    {body : Bytes} (encoded : wire.request.toVec req = .ok body) :
    Ok engine held { l with client := .calling req (frame body) [], calls := l.calls ++ [req] }
      (bodies ++ [body]) replies := by
  have inStep := h.inStep
  rw [hclient] at inStep
  obtain ⟨calls, sent, received⟩ := inStep
  have stream : (bodies ++ [body]).flatMap frame = bodies.flatMap frame ++ frame body := by simp
  refine ⟨h.daemon, h.reading, List.rel_append h.requests (.cons encoded .nil), ?_, h.returned,
    h.answered.trans (wire.replies_append 0 l.calls [req]), ?_, ?_, received⟩
  · exact stream ▸ h.sent.trans (List.prefix_append _ _)
  · exact congrArg (· ++ [req]) calls
  · dsimp only
    rw [sent, stream]

theorem encode_ok {α : Type} {serde : Serde α} {value : α} {bytes : Bytes}
    (h : encode serde value = .ok bytes) :
    ∃ body, serde.toVec value = .ok body ∧ bytes = frame body := by
  unfold encode at h
  cases hbody : serde.toVec value with
  | error e => simp [hbody, Except.mapError] at h
  | ok body =>
    rw [hbody] at h
    simp only [Except.mapError, bind, Except.bind] at h
    split at h
    · cases h
    · exact ⟨body, rfl, (Except.ok.inj h).symm⟩

theorem Ok.step (h : l.Ok engine held bodies replies) (faithful : wire.Faithful)
    (lawful : wire.requests.Lawful maxRequestFrame held) {event : Event}
    (hstep : l.step wire engine event = some l') :
    ∃ bodies' replies', l'.Ok engine held bodies' replies' := by
  cases event with
  | call req =>
    simp only [Link.step] at hstep
    split at hstep
    · rename_i bytes hclient encoded
      obtain rfl := Option.some.inj hstep
      obtain ⟨body, toVec, rfl⟩ := encode_ok encoded
      exact ⟨_, _, h.call hclient toVec⟩
    · obtain rfl := Option.some.inj hstep
      exact ⟨_, _, h.dropped⟩
    · cases hstep
  | send n =>
    simp only [Link.step] at hstep
    split at hstep
    · rename_i req unsent got hclient
      obtain rfl := Option.some.inj hstep
      have inStep := h.inStep
      rw [hclient] at inStep
      obtain ⟨calls, sent, received⟩ := inStep
      have stream : l.daemon.input ++ (l.up ++ unsent.take n) ++ unsent.drop n =
          bodies.flatMap frame := by
        rw [← sent]
        simp
      exact ⟨_, _, h.daemon, h.reading, h.requests, ⟨_, stream⟩, h.returned, h.answered, calls,
        stream, received⟩
    · cases hstep
  | receive n =>
    simp only [Link.step, Option.bind_eq_bind, Option.bind_eq_some_iff] at hstep
    obtain ⟨daemon, hdaemon, hl'⟩ := hstep
    obtain rfl := Option.some.inj hl'
    have ok := h.daemonStep lawful hdaemon nofun (List.take_append_drop n l.up)
    simp only [Connection.Event.sent, List.append_nil] at ok
    exact ⟨_, _, ok⟩
  | next =>
    simp only [Link.step, Option.bind_eq_bind, Option.bind_eq_some_iff] at hstep
    obtain ⟨daemon, hdaemon, hl'⟩ := hstep
    obtain rfl := Option.some.inj hl'
    have ok := h.daemonStep lawful hdaemon nofun (List.nil_append l.up)
    simp only [Connection.Event.sent, List.append_nil] at ok
    exact ⟨_, _, ok⟩
  | write n =>
    simp only [Link.step, Option.bind_eq_bind, Option.bind_eq_some_iff] at hstep
    obtain ⟨daemon, hdaemon, hl'⟩ := hstep
    obtain rfl := Option.some.inj hl'
    exact ⟨_, _, h.daemonStep lawful hdaemon nofun (List.nil_append l.up)⟩
  | fail =>
    simp only [Link.step, Option.bind_eq_bind, Option.bind_eq_some_iff] at hstep
    obtain ⟨daemon, hdaemon, hl'⟩ := hstep
    obtain rfl := Option.some.inj hl'
    have ok := h.daemonStep lawful hdaemon nofun (List.nil_append l.up)
    simp only [Connection.Event.sent, List.append_nil] at ok
    exact ⟨_, _, ok⟩
  | read n =>
    simp only [Link.step] at hstep
    split at hstep
    · rename_i req got hclient
      split at hstep
      · obtain rfl := Option.some.inj hstep
        have inStep := h.inStep
        rw [hclient] at inStep
        obtain ⟨calls, sent, received⟩ := inStep
        refine ⟨_, _, h.daemon, h.reading, h.requests, h.sent, h.returned, h.answered, calls, sent, ?_⟩
        dsimp only
        rw [received, List.append_assoc, List.take_append_drop]
      · cases hstep
    · cases hstep
  | done =>
    simp only [Link.step] at hstep
    split at hstep
    · rename_i req got hclient
      split at hstep
      · rename_i resp result
        obtain rfl := Option.some.inj hstep
        obtain ⟨reply, ok⟩ := h.done faithful hclient result
        exact ⟨_, _, ok⟩
      · obtain rfl := Option.some.inj hstep
        exact ⟨_, _, h.dropped⟩
      · cases hstep
    · cases hstep
  | drop =>
    obtain rfl := Option.some.inj hstep
    exact ⟨_, _, h.dropped⟩

theorem run_ok (faithful : wire.Faithful) (lawful : wire.requests.Lawful maxRequestFrame held)
    {events : List Event} (h : run wire engine events = some l) :
    ∃ bodies replies, l.Ok engine held bodies replies := by
  refine foldlM_keeps (p := fun l => ∃ bodies replies, Ok engine held l bodies replies) ?_
    ⟨_, _, .start lawful⟩ h
  intro l event l' ok hstep
  obtain ⟨bodies, replies, ok⟩ := ok
  exact ok.step faithful lawful hstep

theorem refusingWire_faithful : refusingWire.Faithful := by
  refine ⟨fun req body h => ?_, fun resp body h => ?_, fun req body h => ?_, fun body fits => ?_,
    fun body large => ?_⟩
  · exact (Serde.among_faithful (by decide) h).2
  · exact (Serde.among_faithful (by decide) h).2
  · have row := (Serde.among_faithful (by decide) h).1
    simp only [List.mem_singleton, Prod.mk.injEq] at row
    rw [row.2]
    decide
  · exact if_neg (Nat.not_lt.mpr fits)
  · exact ⟨_, if_pos large⟩

theorem refusingWire_lawful : refusingWire.requests.Lawful maxRequestFrame id :=
  Reader.buffering_lawful Connection.maxRequestFrame_lt

/-- A call whose request and reply arrive in pieces. -/
def refusedCall : List Event :=
  [.call (.rangeDetail 0), .send 37, .receive 9, .next, .receive 28, .next, .write 60, .read 4,
    .read 56, .done]

/-- Events lead from a link to another. -/
def Leads (engine : Asked) (l l' : Link wire) : Prop :=
  ∃ events : List Event, events.foldlM (step wire engine) l = some l'

theorem Leads.refl (l : Link wire) : Leads engine l l := ⟨[], rfl⟩

theorem Leads.trans {l l' l'' : Link wire} (h : Leads engine l l')
    (h' : Leads engine l' l'') : Leads engine l l'' := by
  obtain ⟨events, first⟩ := h
  obtain ⟨events', second⟩ := h'
  exact ⟨events ++ events', by rw [List.foldlM_append, first]; exact second⟩

theorem Leads.of_step (event : Event) (h : l.step wire engine event = some l') :
    Leads engine l l' := ⟨[event], by simp [h]⟩

theorem Leads.ok (faithful : wire.Faithful) (lawful : wire.requests.Lawful maxRequestFrame held)
    (h : Leads engine {} l) : ∃ bodies replies, l.Ok engine held bodies replies := by
  obtain ⟨events, run⟩ := h
  exact run_ok faithful lawful run

theorem leads_send {req : Request} {unsent got : Bytes} (h : l.client = .calling req unsent got) :
    Leads engine l { l with client := .calling req [] got, up := l.up ++ unsent } := by
  apply Leads.of_step (.send unsent.length)
  simp [step, h]

theorem leads_write : Leads engine l { l with
    daemon := { l.daemon with unsent := [], written := l.daemon.written ++ l.daemon.unsent }
    down := l.down ++ l.daemon.unsent } := by
  apply Leads.of_step (.write l.daemon.unsent.length)
  simp [step, Connection.step]

theorem leads_receive (live : l.daemon.live = true) (idle : l.daemon.unsent = [])
    (reading : l.daemon.closed = false) : Leads engine l { l with
      daemon := { l.daemon with
        reader := wire.requests.receive l.daemon.reader l.up
        input := l.daemon.input ++ l.up }
      up := [] } := by
  apply Leads.of_step (.receive l.up.length)
  simp [step, Connection.step, live, idle, reading]

theorem leads_read_body {req : Request} {got body : Bytes} (h : l.client = .calling req [] got)
    (there : got ++ l.down = frame body) (fits : body.length ≤ maxResponseFrame)
    (long : 4 ≤ got.length) :
    Leads engine l { l with client := .calling req [] (frame body), down := [] } := by
  have head : got.take 4 = toBeBytes body.length := by
    have same : (got ++ l.down).take 4 = got.take 4 := List.take_append_of_le_length long
    rw [← same, there]
    rfl
  have rest : Client.wants got = l.down.length := by
    have length := congrArg List.length there
    rw [List.length_append, length_frame] at length
    simp only [Client.wants, if_neg (Nat.not_lt.mpr long), head, validateFrameLen,
      fromBeBytes_toBeBytes (Nat.lt_of_le_of_lt fits maxResponseFrame_lt),
      if_neg (Nat.not_lt.mpr fits)]
    omega
  apply Leads.of_step (.read l.down.length)
  simp [step, h, rest, there]

/-- The call reads a reply that is there: first its length, then its body. -/
theorem leads_read {req : Request} {got body : Bytes} (h : l.client = .calling req [] got)
    (there : got ++ l.down = frame body) (fits : body.length ≤ maxResponseFrame) :
    Leads engine l { l with client := .calling req [] (frame body), down := [] } := by
  by_cases long : 4 ≤ got.length
  · exact leads_read_body h there fits long
  · have short : got.length < 4 := Nat.not_le.mp long
    have length := congrArg List.length there
    rw [List.length_append, length_frame] at length
    have first : Leads engine l { l with
        client := .calling req [] (got ++ l.down.take (4 - got.length))
        down := l.down.drop (4 - got.length) } := by
      apply Leads.of_step (.read (4 - got.length))
      simp [step, h, Client.wants, short]
    refine first.trans (leads_read_body rfl ?_ fits ?_)
    · rw [List.append_assoc, List.take_append_drop, there]
    · rw [List.length_append, List.length_take]
      omega

/-- The engine answers, and its answers fit in a frame. -/
def Answering (wire : Wire) (engine : Asked) : Prop :=
  ∀ n req, ∃ answer body, engine n req = some answer ∧ wire.response.toVec answer = .ok body ∧
    body.length ≤ maxResponseFrame

theorem Answering.length_replies (answering : Answering wire engine) (n : ℕ)
    (reqs : List Request) : (wire.replies engine n reqs).length = reqs.length := by
  induction reqs generalizing n with
  | nil => rfl
  | cons req reqs ih =>
    obtain ⟨answer, body, answered, encoded, fits⟩ := answering n req
    simp [Wire.replies, answered, encoded, Nat.not_lt.mpr fits, ih]

theorem Answering.live (answering : Answering wire engine) (faithful : wire.Faithful)
    {asked : List Request} {req : Request} {body : Bytes} (decoded : decode wire.request body = .ok req) :
    (handleFrame wire engine asked (.ok body)).live = true := by
  obtain ⟨answer, reply, answered, encoded, fits⟩ := answering asked.length req
  simp [handleFrame, decoded, answered, Wire.sendResponse, encoded, Nat.not_lt.mpr fits,
    faithful.send reply fits]

/-- What the daemon does by itself happens on the link. -/
theorem leads_turns {daemon daemon' : Connection wire}
    (turns : Connection.Turns engine daemon daemon') (h : l.daemon = daemon) : ∃ down, Leads engine l { l with daemon := daemon', down } := by
  induction turns generalizing l with
  | refl c =>
    subst h
    exact ⟨l.down, .refl l⟩
  | next first _ ih =>
    subst h
    obtain ⟨down, rest⟩ := ih (l := { l with daemon := _ }) rfl
    exact ⟨down, (Leads.of_step .next (by rw [step, first]; rfl)).trans rest⟩
  | write n first _ ih =>
    subst h
    obtain ⟨down, rest⟩ := ih
      (l := { l with daemon := _, down := l.down ++ l.daemon.unsent.take n }) rfl
    exact ⟨down, (Leads.of_step (.write n) (by rw [step, first]; rfl)).trans rest⟩

/-- As long as the engine answers, requests leave the connection open. -/
theorem Answering.served_live (answering : Answering wire engine) (faithful : wire.Faithful)
    {reqs : List Request} {bodies : List Bytes}
    (decodes : List.Forall₂ (fun req body => decode wire.request body = .ok req) reqs bodies)
    (out : Bytes) (asked : List Request) :
    ((bodies.map .ok).foldl (handle wire engine) ⟨out, true, asked⟩).live = true := by
  induction decodes generalizing out asked with
  | nil => rfl
  | cons own _ ih =>
    simp only [List.map_cons, List.foldl_cons, handle, if_true]
    rw [answering.live faithful own]
    exact ih _ _

/-- The daemon answers all requests it has read. -/
theorem leads_drain (faithful : wire.Faithful)
    (lawful : wire.requests.Lawful maxRequestFrame held) (answering : Answering wire engine)
    (h : Leads engine {} l) (clean : l.daemon.failed = false) :
    ∃ daemon down, Leads engine l { l with daemon, down } ∧ daemon.Waits ∧
      daemon.input = l.daemon.input := by
  obtain ⟨bodies, replies, ok⟩ := h.ok faithful lawful
  obtain ⟨done, fault, buf, takes⟩ := ok.daemon
  obtain ⟨daemon, turns, idle, input, closed, failed, waits⟩ := takes.drains lawful
  obtain ⟨down, leads⟩ := leads_turns turns rfl
  refine ⟨daemon, down, leads, waits ?_, input⟩
  -- all it has served are requests, which leave it open
  obtain ⟨bodies', replies', ok'⟩ := (h.trans leads).ok faithful lawful
  obtain ⟨done', fault', buf', takes'⟩ := ok'.daemon
  obtain ⟨more, rfl, -, rfl⟩ := ok'.taken faithful takes'
  have going : (served wire engine (done' ++ more) none).live = true := by
    rw [served_none]
    exact answering.served_live faithful (ok'.decodes faithful) [] []
  by_contra dead
  rcases takes'.ended (Bool.not_eq_true _ ▸ dead) (failed.trans clean) with ended | ⟨ended, -⟩
  · rw [served_of_not_live ended, ended] at going
    cases going
  · exact absurd (ok'.reading.symm.trans ended) nofun

theorem result_frame {body : Bytes} (fits : body.length ≤ maxResponseFrame) :
    Client.result wire (frame body) = some (decode wire.response body) := by
  have head : (frame body).take 4 = toBeBytes body.length := rfl
  have rest : (frame body).drop 4 = body := rfl
  have long : ¬ (frame body).length < 4 := by
    rw [length_frame]
    omega
  simp only [Client.result, if_neg long, head, rest, validateFrameLen,
    fromBeBytes_toBeBytes (Nat.lt_of_le_of_lt fits maxResponseFrame_lt),
    if_neg (Nat.not_lt.mpr fits)]
  simp [length_frame]

/-- A daemon that waits has written the reply to the call, and the call can read it. -/
theorem leads_reply (faithful : wire.Faithful)
    (lawful : wire.requests.Lawful maxRequestFrame held) (answering : Answering wire engine)
    (h : Leads engine {} l) {req : Request} {got : Bytes}
    (hclient : l.client = .calling req [] got) (waits : l.daemon.Waits) (taken : l.up = []) :
    ∃ l' answer, Leads engine l l' ∧ l'.client = .idle ∧
      engine l.returned.length req = some answer ∧ l'.returned = l.returned ++ [(req, answer)] := by
  obtain ⟨bodies, replies, ok⟩ := h.ok faithful lawful
  have inStep := ok.inStep
  rw [hclient] at inStep
  obtain ⟨calls, sent, received⟩ := inStep
  rw [taken, List.append_nil, List.append_nil] at sent
  -- all requests are served
  obtain ⟨done, fault, buf, takes⟩ := ok.daemon
  have all : Splits maxRequestFrame l.daemon.input bodies [] :=
    ⟨sent.trans (List.append_nil _).symm, ok.small faithful, not_whole_nil⟩
  obtain ⟨rest, same, behind⟩ :=
    all.behind Connection.maxRequestFrame_lt takes.stream takes.fits
  obtain ⟨rfl, -⟩ := takes.not_over_of_waits lawful behind waits
  obtain ⟨-, rfl, clean, -⟩ := takes.goes waits.live
  rw [List.append_nil] at same
  subst same
  have out : l.daemon.written = (wire.replies engine 0 l.calls).flatMap frame := by
    rw [← ok.served faithful, ← takes.all clean, waits.unsent, List.append_nil]
  -- so what was not read yet is the last reply
  obtain ⟨more, split⟩ := ok.answered
  have lengths := congrArg List.length split
  rw [List.length_append, answering.length_replies, calls, List.length_append, List.length_map,
    ok.returned.length_eq] at lengths
  obtain ⟨reply, rfl⟩ := List.length_eq_one_iff.mp (by simpa using lengths)
  have there : got ++ l.down = frame reply := by
    rw [out, ← split, List.flatMap_append] at received
    simpa using (List.append_cancel_left received).symm
  have mem : reply ∈ wire.replies engine 0 l.calls :=
    split ▸ List.mem_append_right _ List.mem_cons_self
  have fits : reply.length ≤ maxResponseFrame := Wire.replies_small mem
  have last : (wire.replies engine 0 l.calls)[l.returned.length]? = some reply := by
    rw [← split, ok.returned.length_eq]
    simp
  obtain ⟨req', answer, resp, hreq, answered, delivered, encoded⟩ := Wire.getElem?_replies last
  obtain rfl : req = req' := by simpa [calls] using hreq
  rw [Nat.zero_add] at answered
  obtain rfl : answer = resp := by
    obtain ⟨answer', body, answered', encoded', fits'⟩ := answering l.returned.length req
    obtain rfl := Option.some.inj (answered.symm.trans answered')
    simpa [Wire.delivered, encoded', Nat.not_lt.mpr fits'] using delivered
  have decoded : decode wire.response reply = .ok answer := by
    rw [Ipc.decode, faithful.response answer reply encoded]
    rfl
  refine ⟨{ l with
    client := .idle
    down := []
    returned := l.returned ++ [(req, answer)] }, answer, ?_, rfl, answered, rfl⟩
  refine (leads_read hclient there fits).trans (.of_step .done ?_)
  simp [step, result_frame fits, decoded]

end Link

end VmWatcher
