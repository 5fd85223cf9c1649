import Mathlib.Algebra.GroupWithZero.Nat
import Mathlib.Data.List.Basic
import Mathlib.Data.Nat.Notation

/-!
# Length-prefixed frames

A frame is the length of its body as four bytes, most significant first, and then the body.
A reader sees the bytes of a stream in chunks that need not end where frames do, and refuses
a length over its limit. How it works is left open: all that is asked of it is that some
function of its state tells which bytes it has read and not handed out yet.
-/

namespace VmWatcher

namespace Framing

abbrev Bytes := List UInt8

/-! ### Lengths -/

/-- The four bytes of a length. -/
def toBeBytes (n : ℕ) : Bytes :=
  [UInt8.ofNat (n / 16777216), UInt8.ofNat (n / 65536), UInt8.ofNat (n / 256), UInt8.ofNat n]

/-- The length four bytes spell. -/
def fromBeBytes (bytes : Bytes) : ℕ := bytes.foldl (fun n byte => n * 256 + byte.toNat) 0

@[simp] theorem length_toBeBytes (n : ℕ) : (toBeBytes n).length = 4 := rfl

@[simp] theorem fromBeBytes_toBeBytes {n : ℕ} (h : n < 2 ^ 32) :
    fromBeBytes (toBeBytes n) = n := by
  simp only [toBeBytes, fromBeBytes, List.foldl_cons, List.foldl_nil, UInt8.toNat_ofNat']
  omega

/-- Four bytes are those of the length they spell. -/
theorem toBeBytes_fromBeBytes {bytes : Bytes} (h : bytes.length = 4) :
    toBeBytes (fromBeBytes bytes) = bytes := by
  obtain ⟨a, b, c, d, rfl⟩ := List.length_eq_four.mp h
  have := a.toNat_lt
  have := b.toNat_lt
  have := c.toNat_lt
  have := d.toNat_lt
  simp only [toBeBytes, fromBeBytes, List.foldl_cons, List.foldl_nil, List.cons.injEq, and_true,
    ← UInt8.toNat_inj, UInt8.toNat_ofNat']
  omega

/-- A body behind its length. -/
def frame (body : Bytes) : Bytes := toBeBytes body.length ++ body

theorem length_frame (body : Bytes) : (frame body).length = 4 + body.length := by
  simp [frame]

theorem frame_ne_nil (body : Bytes) : frame body ≠ [] := by
  intro h
  have := congrArg List.length h
  simp [length_frame] at this

theorem take_frame (body rest : Bytes) : (frame body ++ rest).take 4 = toBeBytes body.length := rfl

/-- A stream starts with one frame at most. -/
theorem frame_append_inj {body body' rest rest' : Bytes} (h : body.length < 2 ^ 32)
    (h' : body'.length < 2 ^ 32) (same : frame body ++ rest = frame body' ++ rest') :
    body = body' ∧ rest = rest' := by
  have lengths : body.length = body'.length := by
    have heads := congrArg (fun bytes => fromBeBytes (bytes.take 4)) same
    simpa only [take_frame, fromBeBytes_toBeBytes h, fromBeBytes_toBeBytes h'] using heads
  have bodies : body ++ rest = body' ++ rest' := congrArg (List.drop 4) same
  exact List.append_inj bodies lengths

/-- A buffer that is as long as its first four bytes say starts with a frame. -/
theorem eq_frame_append {buf : Bytes} (most : 4 + fromBeBytes (buf.take 4) ≤ buf.length) :
    buf = frame ((buf.drop 4).take (fromBeBytes (buf.take 4))) ++
        (buf.drop 4).drop (fromBeBytes (buf.take 4)) ∧
      ((buf.drop 4).take (fromBeBytes (buf.take 4))).length = fromBeBytes (buf.take 4) := by
  have length : ((buf.drop 4).take (fromBeBytes (buf.take 4))).length =
      fromBeBytes (buf.take 4) := List.length_take_of_le (by rw [List.length_drop]; omega)
  refine ⟨?_, length⟩
  rw [frame, length, toBeBytes_fromBeBytes (List.length_take_of_le (by omega)),
    List.append_assoc, List.take_append_drop, List.take_append_drop]

/-! ### What a stream starts with -/

/-- A frame within the limit. -/
def Whole (max : ℕ) (buf : Bytes) : Prop :=
  ∃ body rest, buf = frame body ++ rest ∧ body.length ≤ max

/-- A length over the limit. -/
def Over (max : ℕ) (buf : Bytes) : Prop := 4 ≤ buf.length ∧ max < fromBeBytes (buf.take 4)

variable {max : ℕ} {buf body rest : Bytes}

theorem not_over_frame (small : max < 2 ^ 32) (fits : body.length ≤ max) (rest : Bytes) :
    ¬ Over max (frame body ++ rest) := by
  intro h
  have exceeds := h.2
  rw [take_frame, fromBeBytes_toBeBytes (by omega)] at exceeds
  omega

theorem Over.append (h : Over max buf) (more : Bytes) : Over max (buf ++ more) := by
  obtain ⟨long, exceeds⟩ := h
  refine ⟨by rw [List.length_append]; omega, ?_⟩
  rwa [List.take_append_of_le_length long]

theorem not_whole_nil : ¬ Whole max [] := by
  intro whole
  obtain ⟨body, rest, empty, -⟩ := whole
  exact frame_ne_nil body (List.append_eq_nil_iff.mp empty.symm).1

/-! ### Streams -/

/-- The stream consists of the frames of these bodies, all within the limit, and of a rest
that starts with no other one. -/
structure Splits (max : ℕ) (stream : Bytes) (bodies : List Bytes) (rest : Bytes) : Prop where
  stream : stream = bodies.flatMap frame ++ rest
  fits : ∀ body ∈ bodies, body.length ≤ max
  stops : ¬ Whole max rest

theorem exists_splits (max : ℕ) (stream : Bytes) : ∃ bodies rest, Splits max stream bodies rest := by
  induction hlen : stream.length using Nat.strongRecOn generalizing stream with
  | ind n ih =>
    by_cases whole : Whole max stream
    · obtain ⟨body, behind, rfl, fits⟩ := whole
      have less : behind.length < n := by
        rw [← hlen, List.length_append, length_frame]
        omega
      obtain ⟨bodies, rest, split⟩ := ih _ less behind rfl
      refine ⟨body :: bodies, rest, ?_, List.forall_mem_cons.mpr ⟨fits, split.fits⟩, split.stops⟩
      rw [List.flatMap_cons, List.append_assoc, ← split.stream]
    · exact ⟨[], stream, rfl, nofun, whole⟩

/-- Frames in front of a stream are its first ones. -/
theorem Splits.behind {stream : Bytes} {bodies done : List Bytes} (h : Splits max stream bodies rest)
    (small : max < 2 ^ 32) (starts : stream = done.flatMap frame ++ buf)
    (fits : ∀ body ∈ done, body.length ≤ max) :
    ∃ more, bodies = done ++ more ∧ Splits max buf more rest := by
  induction done generalizing stream bodies with
  | nil =>
    obtain rfl : stream = buf := starts
    exact ⟨bodies, rfl, h⟩
  | cons body done ih =>
    have own := fits body List.mem_cons_self
    rw [List.flatMap_cons, List.append_assoc] at starts
    obtain ⟨all, within, stops⟩ := h
    cases bodies with
    | nil => exact absurd ⟨body, _, all.symm.trans starts, own⟩ stops
    | cons body' bodies =>
      have own' := within body' List.mem_cons_self
      rw [List.flatMap_cons, List.append_assoc] at all
      obtain ⟨rfl, behind⟩ := frame_append_inj (by omega) (by omega) (all.symm.trans starts)
      obtain ⟨more, rfl, split⟩ :=
        ih ⟨behind.symm, fun b hb => within b (List.mem_cons_of_mem _ hb), stops⟩ rfl
          fun b hb => fits b (List.mem_cons_of_mem _ hb)
      exact ⟨more, rfl, split⟩

/-- A rest that starts with no whole frame is the end of the frames. -/
theorem Splits.eq_nil {stream : Bytes} {bodies : List Bytes} (h : Splits max stream bodies rest)
    (stops : ¬ Whole max stream) : bodies = [] ∧ rest = stream := by
  obtain ⟨starts, fits, -⟩ := h
  cases bodies with
  | nil => exact ⟨rfl, starts.symm⟩
  | cons body bodies =>
    rw [List.flatMap_cons, List.append_assoc] at starts
    exact absurd ⟨body, _, starts, fits body List.mem_cons_self⟩ stops

/-- Frames in front of a stream of frames are its first ones. -/
theorem prefix_of_flatMap_frame {bodies bodies' : List Bytes}
    (small : ∀ body ∈ bodies, body.length < 2 ^ 32) (small' : ∀ body ∈ bodies', body.length < 2 ^ 32)
    (h : bodies.flatMap frame ++ rest <+: bodies'.flatMap frame) : bodies <+: bodies' := by
  induction bodies generalizing bodies' with
  | nil => exact List.nil_prefix
  | cons body bodies ih =>
    obtain ⟨more, same⟩ := h
    cases bodies' with
    | nil => simp [frame_ne_nil] at same
    | cons body' bodies' =>
      simp only [List.flatMap_cons, List.append_assoc] at same
      obtain ⟨rfl, tails⟩ := frame_append_inj (small body List.mem_cons_self)
        (small' body' List.mem_cons_self) same
      refine List.cons_prefix_cons.mpr ⟨rfl, ih ?_ ?_ ⟨more, ?_⟩⟩
      · exact fun b hb => small b (List.mem_cons_of_mem body hb)
      · exact fun b hb => small' b (List.mem_cons_of_mem body hb)
      · rw [List.append_assoc, tails]

/-- Nothing in a stream of frames within the limit starts with a length over it. -/
theorem not_over_of_prefix {bodies : List Bytes} (small : max < 2 ^ 32)
    (fits : ∀ body ∈ bodies, body.length ≤ max) (h : buf <+: bodies.flatMap frame) :
    ¬ Over max buf := by
  obtain ⟨more, same⟩ := h
  intro exceeds
  have starts := exceeds.append more
  rw [same] at starts
  cases bodies with
  | nil => exact absurd starts.1 (by decide)
  | cons body bodies => exact not_over_frame small (fits body List.mem_cons_self) _ starts

/-! ### Readers -/

/-- A stream of frames that is read in chunks. -/
structure Reader where
  State : Type
  new : State
  /-- A chunk is read. -/
  receive : State → Bytes → State
  /-- Asked for the next item; the flag tells whether the end of the stream was read. -/
  next : State → Bool → State × Option (Except String Bytes)

/-- What is asked of a reader with a limit: it hands out the frames of the bytes it holds back,
one by one, and an error for a length over the limit. In a stream that ends within a frame it
may find an error too. -/
structure Reader.Lawful (reader : Reader) (max : ℕ) (held : reader.State → Bytes) : Prop where
  new : held reader.new = []
  receive : ∀ s chunk, held (reader.receive s chunk) = held s ++ chunk
  whole : ∀ s ended body rest, held s = frame body ++ rest → body.length ≤ max →
    ∃ s', reader.next s ended = (s', some (.ok body)) ∧ held s' = rest
  exceeds : ∀ s ended, Over max (held s) → ∃ s' e, reader.next s ended = (s', some (.error e))
  waits : ∀ s ended, ¬ Whole max (held s) → ¬ Over max (held s) → ended = false ∨ held s = [] →
    ∃ s', reader.next s ended = (s', none) ∧ held s' = held s
  cut : ∀ s, ¬ Whole max (held s) → ¬ Over max (held s) →
    ∃ s', reader.next s true = (s', none) ∨ ∃ e, reader.next s true = (s', some (.error e))

/-- A reader that keeps all it has not handed out. -/
def Reader.buffering (max : ℕ) : Reader where
  State := Bytes
  new := []
  receive := (· ++ ·)
  next buf ended :=
    let len := fromBeBytes (buf.take 4)
    if 4 ≤ buf.length ∧ max < len then (buf, some (.error "frame size too big"))
    else if 4 ≤ buf.length ∧ 4 + len ≤ buf.length then
      (buf.drop (4 + len), some (.ok ((buf.drop 4).take len)))
    else if ended ∧ buf ≠ [] then (buf, some (.error "bytes remaining on stream"))
    else (buf, none)

theorem Reader.buffering_lawful (small : max < 2 ^ 32) : (buffering max).Lawful max id := by
  have short {buf : Bytes} (whole : ¬ Whole max buf) (within : ¬ Over max buf) :
      ¬ (4 ≤ buf.length ∧ 4 + fromBeBytes (buf.take 4) ≤ buf.length) := by
    intro h
    obtain ⟨long, most⟩ := h
    obtain ⟨starts, length⟩ := eq_frame_append most
    refine whole ⟨_, _, starts, ?_⟩
    rw [length]
    by_contra least
    exact within ⟨long, by omega⟩
  refine ⟨rfl, fun _ _ => rfl, ?_, ?_, ?_, ?_⟩
  · intro buf ended body rest hbuf fits
    obtain rfl : buf = frame body ++ rest := hbuf
    have within : ¬ Over max (frame body ++ rest) := not_over_frame small fits rest
    have head : fromBeBytes ((frame body ++ rest).take 4) = body.length := by
      rw [take_frame, fromBeBytes_toBeBytes (by omega)]
    have long : 4 ≤ (frame body ++ rest).length ∧
        4 + body.length ≤ (frame body ++ rest).length := by
      simp [length_frame]
      omega
    have behind : (frame body ++ rest).drop (4 + body.length) = rest := by
      rw [← length_frame, List.drop_left]
    have cut : ((frame body ++ rest).drop 4).take body.length = body := by
      change (body ++ rest).take body.length = body
      rw [List.take_left]
    refine ⟨rest, ?_, rfl⟩
    unfold Over at within
    rw [head] at within
    simp only [buffering, head, if_neg within, if_pos long, behind, cut]
  · intro buf ended exceeds
    exact ⟨buf, _, if_pos exceeds⟩
  · intro buf ended whole within quiet
    refine ⟨buf, ?_, rfl⟩
    have none : ¬ (ended = true ∧ buf ≠ []) := by
      rintro ⟨rfl, some⟩
      exact some (quiet.resolve_left nofun)
    exact (if_neg within).trans ((if_neg (short whole within)).trans (if_neg none))
  · intro buf whole within
    refine ⟨buf, ?_⟩
    have least := short whole within
    by_cases empty : buf = []
    · exact .inl ((if_neg within).trans ((if_neg least).trans (if_neg (by simp [empty]))))
    · exact .inr ⟨_, (if_neg within).trans ((if_neg least).trans (if_pos ⟨rfl, empty⟩))⟩

end Framing

end VmWatcher
