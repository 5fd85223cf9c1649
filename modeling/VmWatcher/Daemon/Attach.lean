import VmWatcher.Ebpf.Policers
import VmWatcher.Misc.Handles
import VmWatcher.Misc.Table

/-!
# TC attach management (`vm-bandwidth/src/tc.rs`)

One pair of TC links per TAP. The kernel may answer every request as it likes; which
links it handed out and which were passed to a detach is kept with it. Log lines are left
out.
-/

namespace VmWatcher

structure Tap where
  name : String
  ifindex : UInt32
  deriving DecidableEq, Repr

/-- Where a TAP's qdisc came from. -/
inductive QdiscOrigin where
  | notRequired
  | reusedExisting
  | createdByUs
  deriving DecidableEq, Repr

/-- Coarse classification of an attach failure. -/
inductive AttachFailure where
  /-- No usable parent qdisc for the hook. -/
  | qdiscMissing
  | other
  deriving DecidableEq, Repr

/-- Result of ensuring that a clsact exists. -/
inductive QdiscAddOutcome where
  | created
  | alreadyPresent
  deriving DecidableEq, Repr

/-- Failure of `attach_flow`, with the stage and the qdisc origin. -/
inductive AttachFlowError where
  | ingress (detail : String)
  | qdiscAdd (detail : String)
  | egress (origin : QdiscOrigin) (conflict : Bool) (detail : String)
  deriving DecidableEq, Repr

def AttachFailure.debug : AttachFailure → String
  | qdiscMissing => "QdiscMissing"
  | other => "Other"

/-! ### One TAP -/

/-- The operations `attach_flow` is generic in. -/
structure AttachBackend (B Link : Type) where
  attachIngress : String → B → Except AttachFailure Link × B
  attachEgress : String → B → Except AttachFailure Link × B
  detachIngress : Link → B → B
  addClsact : String → B → Except String QdiscAddOutcome × B

namespace AttachBackend

variable {B Link : Type} (b : AttachBackend B Link)

/-- `ensure_clsact`. -/
def ensureClsact (tap : String) (s : B) : Except AttachFlowError QdiscOrigin × B :=
  match b.addClsact tap s with
  | (.ok .created, s) => (.ok .createdByUs, s)
  | (.ok .alreadyPresent, s) => (.ok .reusedExisting, s)
  | (.error e, s) => (.error (.qdiscAdd e), s)

/-- The first part of `attach_flow`: the ingress hook. -/
def attachFlowIngress (tap : String) (s : B) : Except AttachFlowError (Link × QdiscOrigin) × B :=
  match b.attachIngress tap s with
  | (.ok link, s) => (.ok (link, .notRequired), s)
  | (.error .qdiscMissing, s) =>
    match b.ensureClsact tap s with
    | (.error e, s) => (.error e, s)
    | (.ok origin, s) =>
      -- exactly one retry after the qdisc exists
      match b.attachIngress tap s with
      | (.ok link, s) => (.ok (link, origin), s)
      | (.error e, s) =>
        (.error (.ingress s!"still failing after clsact ensure: {e.debug}"), s)
  | (.error .other, s) => (.error (.ingress "direct attach failed (not a missing qdisc)"), s)

/-- The second part of `attach_flow`: the egress hook, which gives the ingress link back
when it fails. -/
def attachFlowEgress (tap : String) (ingress : Link) (origin : QdiscOrigin) (s : B) :
    Except AttachFlowError (Link × Link × QdiscOrigin) × B :=
  match b.attachEgress tap s with
  | (.ok link, s) => (.ok (ingress, link, origin), s)
  | (.error e, s) =>
    if e = .qdiscMissing ∧ origin = .notRequired then
      match b.ensureClsact tap s with
      | (.error e, s) => (.error e, b.detachIngress ingress s)
      | (.ok origin, s) =>
        match b.attachEgress tap s with
        | (.ok link, s) => (.ok (ingress, link, origin), s)
        | (.error e, s) => (.error (.egress origin true e.debug), b.detachIngress ingress s)
    else (.error (.egress origin false e.debug), b.detachIngress ingress s)

/-- `attach_flow`: attach both hooks to one TAP. -/
def attachFlow (tap : String) (s : B) :
    Except AttachFlowError (Link × Link × QdiscOrigin) × B :=
  match b.attachFlowIngress tap s with
  | (.error e, s) => (.error e, s)
  | (.ok (ingress, origin), s) => b.attachFlowEgress tap ingress origin s

end AttachBackend

/-! ### The kernel's side -/

/-- An error of an attach or of a qdisc request, with its text. -/
inductive TcFailure where
  | netlink (rawOsError : Option ℤ) (display : String)
  | other (display : String)
  deriving DecidableEq, Repr

def einval : ℤ := 22
def enoent : ℤ := 2
def eexist : ℤ := 17

/-- `classify_netlink_errno`. -/
def classifyNetlinkErrno (errno : Option ℤ) : AttachFailure :=
  if errno = some einval ∨ errno = some enoent then .qdiscMissing else .other

/-- `classify_attach_failure`. -/
def classifyAttachFailure : TcFailure → AttachFailure
  | .netlink errno _ => classifyNetlinkErrno errno
  | .other _ => .other

/-- `qdisc_already_present_errno`. -/
def qdiscAlreadyPresentErrno (errno : Option ℤ) : Bool := errno = some eexist

/-- A link, named by its turn among all links handed out. -/
abbrev LinkId := ℕ

/-- The loaded object. What the kernel answers to its requests is arbitrary. -/
structure Ebpf where
  /-- The failure of each request to come, if it fails. -/
  answers : ℕ → Option TcFailure
  /-- How many requests were made. -/
  requests : ℕ
  /-- How many links were handed out. -/
  links : LinkId
  /-- The links passed to a detach, latest first. -/
  detached : List LinkId

namespace Ebpf

/-- Attach a program to a hook. -/
def attachProg (s : Ebpf) : Except AttachFailure LinkId × Ebpf :=
  match s.answers s.requests with
  | none => (.ok s.links, { s with requests := s.requests + 1, links := s.links + 1 })
  | some e => (.error (classifyAttachFailure e), { s with requests := s.requests + 1 })

/-- Pass a link to a detach. A failure is only logged. -/
def detach (link : LinkId) (s : Ebpf) : Ebpf := { s with detached := link :: s.detached }

/-- `add_clsact`. -/
def addClsact (s : Ebpf) : Except String QdiscAddOutcome × Ebpf :=
  let s' := { s with requests := s.requests + 1 }
  match s.answers s.requests with
  | none => (.ok .created, s')
  | some (.netlink errno display) =>
    if qdiscAlreadyPresentErrno errno then (.ok .alreadyPresent, s') else (.error display, s')
  | some (.other display) => (.error display, s')

/-- The handles that were obtained from the kernel and passed back to it. -/
def handles (s : Ebpf) : Handles LinkId := ⟨fun link => link < s.links, s.detached⟩

end Ebpf

/-- `AyaBackend`. -/
def ayaBackend : AttachBackend Ebpf LinkId where
  attachIngress _ := Ebpf.attachProg
  attachEgress _ := Ebpf.attachProg
  detachIngress := Ebpf.detach
  addClsact _ := Ebpf.addClsact

/-! ### Retries -/

/-- Cap on the backoff between attach retries. -/
def maxRetryBackoffSecs : ℕ := 300

/-- Attach retry state of one TAP whose attach failed. Instants are in nanoseconds. -/
structure Backoff where
  ifindex : UInt32
  failures : ℕ
  retryAt : ℕ
  deriving DecidableEq, Repr

/-- `should_attempt`. -/
def shouldAttempt (backoff : Table String Backoff) (tap : Tap) (now : ℕ) : Bool :=
  (backoff tap.name).all fun b => b.ifindex ≠ tap.ifindex || now ≥ b.retryAt

/-- The entry `record_failure` leaves: the count starts again for a new interface. -/
def Backoff.failed (old : Option Backoff) (tap : Tap) (now : ℕ) : Backoff :=
  let fresh : Backoff := ⟨tap.ifindex, 0, now⟩
  let entry := old.getD fresh
  let entry := if entry.ifindex ≠ tap.ifindex then fresh else entry
  let failures := entry.failures + 1
  let delay := min (5 <<< min (failures - 1) 6) maxRetryBackoffSecs
  { entry with failures, retryAt := now + delay * nsPerSec }

/-- `record_failure`. -/
def recordFailure (backoff : Table String Backoff) (tap : Tap) (now : ℕ) : Table String Backoff :=
  backoff.insert tap.name (.failed (backoff tap.name) tap now)

/-- `prune_backoff`: forget the backoff of TAPs that vanished or were recreated. -/
def pruneBackoff (backoff : Table String Backoff) (found : List Tap) : Table String Backoff :=
  backoff.retain fun name b => found.any fun t => t.name = name && t.ifindex = b.ifindex

/-! ### All TAPs -/

structure AttachedTap where
  tap : Tap
  ingressLink : LinkId
  egressLink : LinkId
  qdiscOrigin : QdiscOrigin
  deriving DecidableEq, Repr

structure AttachManager where
  bpf : Ebpf
  attached : Table String AttachedTap
  retryBackoff : Table String Backoff

/-- `reconcile_plan`: which attached TAPs to detach and which found TAPs to attach. -/
def reconcilePlan (attached : List (String × UInt32)) (found : List Tap) :
    List String × List Tap :=
  ((attached.filter fun a =>
      ((found.find? fun t => t.name = a.1).map fun t => decide (t.ifindex ≠ a.2)).getD true).map
    Prod.fst,
   found.filter fun t =>
      match attached.find? fun a => a.1 = t.name with
      | none => true
      | some a => a.2 ≠ t.ifindex)

namespace AttachManager

/-- `new`, once both programs are loaded. -/
def new (bpf : Ebpf) : AttachManager := ⟨bpf, Table.empty, Table.empty⟩

/-- `detach`. -/
def detach (m : AttachManager) (name : String) : AttachManager :=
  match m.attached name with
  | none => m
  | some att =>
    { bpf := (m.bpf.detach att.ingressLink).detach att.egressLink
      attached := m.attached.remove name
      retryBackoff := m.retryBackoff.remove name }

/-- One TAP in the attach loop of `reconcile`, with the counts of those added and failed. -/
def addTap (now : ℕ) (r : AttachManager × ℕ × ℕ) (tap : Tap) : AttachManager × ℕ × ℕ :=
  let (m, added, failed) := r
  if shouldAttempt m.retryBackoff tap now then
    match ayaBackend.attachFlow tap.name m.bpf with
    | (.ok (ingressLink, egressLink, qdiscOrigin), bpf) =>
      ({ bpf
         attached := m.attached.insert tap.name { tap, ingressLink, egressLink, qdiscOrigin }
         retryBackoff := m.retryBackoff.remove tap.name },
        added + 1, failed)
    | (.error _, bpf) =>
      ({ m with bpf, retryBackoff := recordFailure m.retryBackoff tap now }, added, failed + 1)
  else r

/-- The names and interfaces of the attached TAPs, in the given order. -/
def attachedView (m : AttachManager) (order : List String) : List (String × UInt32) :=
  order.filterMap fun name => (m.attached name).map fun a => (a.tap.name, a.tap.ifindex)

/-- `reconcile`, going through the attached TAPs in the given order. Returns the counts of
those added and failed as well. -/
def reconcile (m : AttachManager) (found : List Tap) (order : List String) (now : ℕ) :
    AttachManager × ℕ × ℕ :=
  let plan := reconcilePlan (m.attachedView order) found
  let m := { m with retryBackoff := pruneBackoff m.retryBackoff found }
  let m := plan.1.foldl detach m
  plan.2.foldl (addTap now) (m, 0, 0)

/-- `drop`: detach every TAP, in the given order. -/
def drop (m : AttachManager) (names : List String) : AttachManager := names.foldl detach m

end AttachManager

end VmWatcher
