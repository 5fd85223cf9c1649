import VmWatcher.Ebpf.Maps
import VmWatcher.Misc.BitPrefix

/-!
# The whitelist lookup (`vm-bandwidth-ebpf/src/main.rs`)

`MONITORED_IPS` is a longest-prefix-match trie of the kernel: an entry matches a key
when its first `prefix_len` bits agree with the key's in memory byte order. Both sides
build their keys with `to_be()`, so what lies in memory is the address in network byte
order whatever the host's own order is.
-/

namespace VmWatcher

/-- The order in which the host stores the bytes of a word. -/
inductive ByteOrder where
  | little
  | big
  deriving DecidableEq, Repr

/-- The bytes of an address, most significant first. -/
def networkBytes (x : UInt32) : List UInt8 :=
  [UInt8.ofNat (x.toNat / 2 ^ 24), UInt8.ofNat (x.toNat / 2 ^ 16), UInt8.ofNat (x.toNat / 2 ^ 8),
    UInt8.ofNat x.toNat]

/-- `u32::from_be_bytes`. -/
def ofNetworkBytes : List UInt8 → UInt32
  | [a, b, c, d] =>
      UInt32.ofNat (a.toNat * 2 ^ 24 + b.toNat * 2 ^ 16 + c.toNat * 2 ^ 8 + d.toNat)
  | _ => 0

namespace ByteOrder

/-- The bytes of a word as they lie in memory. -/
def memBytes : ByteOrder → UInt32 → List UInt8
  | big, x => networkBytes x
  | little, x => (networkBytes x).reverse

/-- `u32::to_be`: swap the bytes on a little-endian host. -/
def toBe : ByteOrder → UInt32 → UInt32
  | big, x => x
  | little, x => ofNetworkBytes (networkBytes x).reverse

end ByteOrder

/-- `TrieKey<u32>`. -/
structure TrieKey where
  prefixLen : UInt32
  data : UInt32
  deriving DecidableEq, Repr

/-- `trie_key` in `vm-bandwidth/src/daemon.rs`. -/
def trieKey (host : ByteOrder) (c : Cidr) : TrieKey := ⟨c.prefixLen.toUInt32, host.toBe c.network⟩

/-- The bits of a word in memory, byte by byte. -/
def memBits (host : ByteOrder) (x : UInt32) : List Bool :=
  (host.memBytes x).flatMap fun b => leadingBits 8 8 b.toNat

/-- How the trie compares an entry with the key of a lookup. -/
def TrieKey.Matches (host : ByteOrder) (entry key : TrieKey) : Prop :=
  entry.prefixLen ≤ key.prefixLen ∧
    (memBits host entry.data).take entry.prefixLen.toNat =
      (memBits host key.data).take entry.prefixLen.toNat

/-- The lookup in `handle` finds an entry for the address. -/
def Dataplane.monitors (host : ByteOrder) (d : Dataplane) (ipv4 : UInt32) : Prop :=
  ∃ c, d.monitoredIps c = true ∧ (trieKey host c).Matches host ⟨32, host.toBe ipv4⟩

/-! ### What a match means -/

theorem networkBytes_ofNetworkBytes_reverse (x : UInt32) :
    networkBytes (ofNetworkBytes (networkBytes x).reverse) = (networkBytes x).reverse := by
  have bytes : ∀ a b c d : UInt8, networkBytes (ofNetworkBytes [a, b, c, d]) = [a, b, c, d] := by
    intro a b c d
    have ha := a.toNat_lt
    have hb := b.toNat_lt
    have hc := c.toNat_lt
    have hd := d.toNat_lt
    have word : (ofNetworkBytes [a, b, c, d]).toNat =
        a.toNat * 2 ^ 24 + b.toNat * 2 ^ 16 + c.toNat * 2 ^ 8 + d.toNat := by
      rw [ofNetworkBytes, UInt32.toNat_ofNat']
      exact Nat.mod_eq_of_lt (by omega)
    rw [networkBytes, word]
    simp only [List.cons.injEq, and_true]
    refine ⟨?_, ?_, ?_, ?_⟩
    all_goals
      apply UInt8.toNat_inj.mp
      rw [UInt8.toNat_ofNat']
      omega
  exact bytes _ _ _ _

/-- What `to_be()` leaves in memory is the address in network byte order. -/
theorem memBytes_toBe (host : ByteOrder) (x : UInt32) :
    host.memBytes (host.toBe x) = networkBytes x := by
  cases host with
  | big => rfl
  | little =>
    rw [ByteOrder.memBytes, ByteOrder.toBe, networkBytes_ofNetworkBytes_reverse,
      List.reverse_reverse]

theorem memBits_toBe (host : ByteOrder) (x : UInt32) :
    memBits host (host.toBe x) = leadingBits 32 32 x.toNat := by
  have byte : ∀ n : ℕ, leadingBits 8 8 (UInt8.ofNat n).toNat = leadingBits 8 8 n := fun n => by
    rw [UInt8.toNat_ofNat']
    exact leadingBits_mod 8 n
  have high := leadingBits_add 8 24 x.toNat
  have middle := leadingBits_add 8 16 x.toNat
  have low := leadingBits_add 8 8 x.toNat
  rw [memBits, memBytes_toBe, high, middle, low]
  simp only [networkBytes, List.flatMap_cons, List.flatMap_nil, List.append_nil, byte]

theorem trieKey_matches_iff (host : ByteOrder) (c : Cidr) (ipv4 : UInt32)
    (hlen : c.prefixLen.toNat ≤ 32) :
    (trieKey host c).Matches host ⟨32, host.toBe ipv4⟩ ↔ c.Covers ipv4 := by
  have len : (trieKey host c).prefixLen.toNat = c.prefixLen.toNat := UInt8.toNat_toUInt32 _
  have short : (trieKey host c).prefixLen ≤ 32 := by
    rw [UInt32.le_iff_toNat_le, len]
    exact hlen
  have data : (trieKey host c).data = host.toBe c.network := rfl
  unfold TrieKey.Matches Cidr.Covers
  rw [and_iff_right short, data, memBits_toBe, memBits_toBe, len, take_leadingBits hlen,
    take_leadingBits hlen, leadingBits_eq_iff hlen c.network.toNat_lt ipv4.toNat_lt]
  exact eq_comm

end VmWatcher
