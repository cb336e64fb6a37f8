import MiningPool.Library.Bytes

/-!
# Codecs

A codec pairs a writer with a prefix reader. `complete` says the reader undoes the
writer in front of any suffix, `canonical` that the reader accepts nothing the
writer would not have written. Codecs compose, and so do both laws.
-/

structure Codec (α : Type) where
  Valid : α → Prop
  encode : α → List UInt8
  decode : List UInt8 → Option (α × List UInt8)
  complete : ∀ a rest, Valid a → decode (encode a ++ rest) = some (a, rest)
  canonical : ∀ bs a rest, decode bs = some (a, rest) → Valid a ∧ bs = encode a ++ rest

namespace Codec

variable {α β : Type}

/-- Read a whole byte string: nothing may be left over. -/
def decodeAll (c : Codec α) (bs : List UInt8) : Option α :=
  match c.decode bs with
  | some (a, []) => some a
  | _ => none

theorem decodeAll_encode (c : Codec α) (a : α) (valid : c.Valid a) :
    c.decodeAll (c.encode a) = some a := by
  have h := c.complete a [] valid
  rw [List.append_nil] at h
  simp only [decodeAll, h]

theorem decodeAll_canonical (c : Codec α) {bs : List UInt8} {a : α}
    (h : c.decodeAll bs = some a) : c.Valid a ∧ bs = c.encode a := by
  unfold decodeAll at h
  split at h
  next b read =>
    cases h
    simpa using c.canonical _ _ _ read
  · cases h

theorem encode_injective (c : Codec α) {a b : α} (ha : c.Valid a) (hb : c.Valid b)
    {xs ys : List UInt8} (h : c.encode a ++ xs = c.encode b ++ ys) : a = b ∧ xs = ys := by
  have read := c.complete a xs ha
  rw [h, c.complete b ys hb] at read
  simpa [eq_comm] using read

/-! ### Fixed widths -/

/-- Exactly `k` bytes, as they are. -/
def raw (k : Nat) : Codec (Bytes k) where
  Valid _ := True
  encode a := a.data
  decode bs := if h : k ≤ bs.length then some (⟨bs.take k, by simpa using h⟩, bs.drop k) else none
  complete := by
    intro a rest _
    have fits : k ≤ (a.data ++ rest).length := by simp
    have front : (a.data ++ rest).take k = a.data := List.take_left' a.size
    have back : (a.data ++ rest).drop k = rest := List.drop_left' a.size
    simp only [fits, front, back, dite_true]
  canonical := by
    intro bs a rest h
    split at h
    · cases h
      exact ⟨trivial, (List.take_append_drop k bs).symm⟩
    · cases h

/-- A little-endian number of `k` bytes. -/
def nat (k : Nat) : Codec Nat where
  Valid m := m < 256 ^ k
  encode m := Bytes.toLE k m
  decode bs := ((raw k).decode bs).map fun (a, rest) => (Bytes.ofLE a.data, rest)
  complete := by
    intro m rest valid
    have read := (raw k).complete ⟨Bytes.toLE k m, Bytes.toLE_length k m⟩ rest trivial
    change (raw k).decode (Bytes.toLE k m ++ rest) = _ at read
    simp only [read, Option.map_some, Bytes.ofLE_toLE k m valid]
  canonical := by
    intro bs m rest h
    rw [Option.map_eq_some_iff] at h
    obtain ⟨⟨a, tail⟩, read, eq⟩ := h
    cases eq
    have bound := Bytes.ofLE_lt a.data
    have spelled := Bytes.toLE_ofLE a.data
    rw [a.size] at bound spelled
    exact ⟨bound, by rw [spelled]; exact ((raw k).canonical _ _ _ read).2⟩

/-- Change the type read through an inverse pair. -/
def imap (c : Codec α) (f : α → β) (g : β → α) (unpack : ∀ a, c.Valid a → g (f a) = a)
    (pack : ∀ b, f (g b) = b) : Codec β where
  Valid b := c.Valid (g b)
  encode b := c.encode (g b)
  decode bs := (c.decode bs).map fun (a, rest) => (f a, rest)
  complete := by
    intro b rest valid
    simp only [c.complete (g b) rest valid, Option.map_some, pack]
  canonical := by
    intro bs b rest h
    rw [Option.map_eq_some_iff] at h
    obtain ⟨⟨a, tail⟩, read, eq⟩ := h
    cases eq
    obtain ⟨valid, split⟩ := c.canonical _ _ _ read
    rw [unpack a valid]
    exact ⟨valid, split⟩

def word32 : Codec UInt32 :=
  (nat 4).imap UInt32.ofNat UInt32.toNat
    (fun _ h => UInt32.toNat_ofNat_of_lt' h) (fun _ => UInt32.ofNat_toNat)

def word64 : Codec UInt64 :=
  (nat 8).imap UInt64.ofNat UInt64.toNat
    (fun _ h => UInt64.toNat_ofNat_of_lt' h) (fun _ => UInt64.ofNat_toNat)

@[simp] theorem raw_valid {k : Nat} (a : Bytes k) : (raw k).Valid a := trivial

@[simp] theorem word32_valid (w : UInt32) : word32.Valid w := w.toNat_lt

@[simp] theorem word64_valid (w : UInt64) : word64.Valid w := w.toNat_lt

/-! ### Sequences -/

def pair (c : Codec α) (d : Codec β) : Codec (α × β) where
  Valid p := c.Valid p.1 ∧ d.Valid p.2
  encode p := c.encode p.1 ++ d.encode p.2
  decode bs := do
    let (a, rest) ← c.decode bs
    let (b, rest) ← d.decode rest
    return ((a, b), rest)
  complete := by
    rintro ⟨a, b⟩ rest ⟨ha, hb⟩
    simp [c.complete a _ ha, d.complete b rest hb]
  canonical := by
    rintro bs ⟨a, b⟩ rest h
    simp only [Option.bind_eq_bind, Option.bind_eq_some_iff] at h
    obtain ⟨⟨a', middle⟩, first, ⟨b', tail⟩, second, eq⟩ := h
    cases eq
    obtain ⟨ha, rfl⟩ := c.canonical _ _ _ first
    obtain ⟨hb, rfl⟩ := d.canonical _ _ _ second
    exact ⟨⟨ha, hb⟩, (List.append_assoc _ _ _).symm⟩

/-- Read `n` values one after the other. -/
def decodeMany (c : Codec α) : Nat → List UInt8 → Option (List α × List UInt8)
  | 0, bs => some ([], bs)
  | n + 1, bs => do
    let (a, rest) ← c.decode bs
    let (as, rest) ← decodeMany c n rest
    return (a :: as, rest)

theorem decodeMany_complete (c : Codec α) (as : List α) (rest : List UInt8)
    (valid : ∀ a ∈ as, c.Valid a) :
    c.decodeMany as.length (as.flatMap c.encode ++ rest) = some (as, rest) := by
  induction as with
  | nil => rfl
  | cons a as ih =>
    have tail := ih fun b hb => valid b (List.mem_cons_of_mem a hb)
    simp [decodeMany, c.complete a _ (valid a List.mem_cons_self), tail]

theorem decodeMany_canonical (c : Codec α) (n : Nat) (bs : List UInt8) (as : List α)
    (rest : List UInt8) (h : c.decodeMany n bs = some (as, rest)) :
    as.length = n ∧ (∀ a ∈ as, c.Valid a) ∧ bs = as.flatMap c.encode ++ rest := by
  induction n generalizing bs as with
  | zero =>
    cases h
    simp
  | succ n ih =>
    simp only [decodeMany, Option.bind_eq_bind, Option.bind_eq_some_iff] at h
    obtain ⟨⟨a, middle⟩, first, ⟨as', tail⟩, others, eq⟩ := h
    cases eq
    obtain ⟨ha, rfl⟩ := c.canonical _ _ _ first
    obtain ⟨len, has, rfl⟩ := ih _ _ others
    refine ⟨by simp [len], ?_, by simp⟩
    intro b hb
    rcases List.mem_cons.mp hb with rfl | hb
    · exact ha
    · exact has b hb

/-! ### Counts -/

/-- A marker byte's payload: a number of `k` bytes that no shorter form could carry. -/
def decodeSized (k least : Nat) (bs : List UInt8) : Option (Nat × List UInt8) :=
  ((nat k).decode bs).bind fun (m, rest) => if least ≤ m then some (m, rest) else none

private theorem decodeSized_complete (k least m : Nat) (rest : List UInt8) (low : least ≤ m)
    (high : m < 256 ^ k) : decodeSized k least (Bytes.toLE k m ++ rest) = some (m, rest) := by
  have read : (nat k).decode (Bytes.toLE k m ++ rest) = some (m, rest) :=
    (nat k).complete m rest high
  simp only [decodeSized, read, Option.bind_some, if_pos low]

private theorem decodeSized_canonical {k least m : Nat} {bs rest : List UInt8}
    (h : decodeSized k least bs = some (m, rest)) :
    least ≤ m ∧ m < 256 ^ k ∧ bs = Bytes.toLE k m ++ rest := by
  simp only [decodeSized, Option.bind_eq_some_iff] at h
  obtain ⟨⟨m', tail⟩, read, kept⟩ := h
  split at kept
  next low =>
    cases kept
    obtain ⟨high, split⟩ := (nat k).canonical _ _ _ read
    exact ⟨low, high, split⟩
  · cases kept

def encodeCompactSize (m : Nat) : List UInt8 :=
  if m < 0xfd then [UInt8.ofNat m]
  else if m ≤ 0xffff then 0xfd :: Bytes.toLE 2 m
  else if m ≤ 0xffffffff then 0xfe :: Bytes.toLE 4 m
  else 0xff :: Bytes.toLE 8 m

/-- Only the shortest form of a number is read back. -/
def decodeCompactSize : List UInt8 → Option (Nat × List UInt8)
  | [] => none
  | b :: rest =>
    if b = 0xfd then decodeSized 2 0xfd rest
    else if b = 0xfe then decodeSized 4 0x10000 rest
    else if b = 0xff then decodeSized 8 0x100000000 rest
    else some (b.toNat, rest)

private theorem small_byte {m : Nat} (h : m < 0xfd) :
    (UInt8.ofNat m).toNat = m ∧ UInt8.ofNat m ≠ 0xfd ∧ UInt8.ofNat m ≠ 0xfe ∧
      UInt8.ofNat m ≠ 0xff := by
  have value : (UInt8.ofNat m).toNat = m := by rw [UInt8.toNat_ofNat']; omega
  refine ⟨value, ?_, ?_, ?_⟩ <;> intro same <;> rw [same] at value <;>
    simp at value <;> omega

/-- Bitcoin's variable-length count. -/
def compactSize : Codec Nat where
  Valid m := m < 2 ^ 64
  encode := encodeCompactSize
  decode := decodeCompactSize
  complete := by
    intro m rest valid
    unfold encodeCompactSize
    split
    next small =>
      obtain ⟨value, hfd, hfe, hff⟩ := small_byte small
      simp only [List.cons_append, List.nil_append, decodeCompactSize, hfd, hfe, hff, if_false,
        value]
    split
    · exact decodeSized_complete 2 0xfd m rest (by omega) (by omega)
    split
    · exact decodeSized_complete 4 0x10000 m rest (by omega) (by omega)
    · exact decodeSized_complete 8 0x100000000 m rest (by omega) (by omega)
  canonical := by
    intro bs m rest h
    cases bs with
    | nil => cases h
    | cons b tail =>
      simp only [decodeCompactSize] at h
      unfold encodeCompactSize
      split at h
      next marker =>
        obtain ⟨low, high, rfl⟩ := decodeSized_canonical h
        rw [if_neg (by omega), if_pos (by omega), marker]
        exact ⟨by omega, rfl⟩
      split at h
      next marker =>
        obtain ⟨low, high, rfl⟩ := decodeSized_canonical h
        rw [if_neg (by omega), if_neg (by omega), if_pos (by omega), marker]
        exact ⟨by omega, rfl⟩
      split at h
      next marker =>
        obtain ⟨low, high, rfl⟩ := decodeSized_canonical h
        rw [if_neg (by omega), if_neg (by omega), if_neg (by omega), marker]
        exact ⟨by omega, rfl⟩
      next hfd hfe hff =>
        cases h
        have bound := b.toNat_lt
        have small : b.toNat < 0xfd := by
          have ne (c : UInt8) (hc : b ≠ c) : b.toNat ≠ c.toNat := fun e => hc (UInt8.toNat_inj.mp e)
          have h1 := ne _ hfd
          have h2 := ne _ hfe
          have h3 := ne _ hff
          simp at h1 h2 h3
          omega
        rw [if_pos small, UInt8.ofNat_toNat]
        exact ⟨by omega, rfl⟩

/-- A count and that many values. -/
def counted (c : Codec α) : Codec (List α) where
  Valid as := as.length < 2 ^ 64 ∧ ∀ a ∈ as, c.Valid a
  encode as := compactSize.encode as.length ++ as.flatMap c.encode
  decode bs := (compactSize.decode bs).bind fun (n, rest) => c.decodeMany n rest
  complete := by
    rintro as rest ⟨short, valid⟩
    rw [List.append_assoc, compactSize.complete _ _ short, Option.bind_some]
    exact c.decodeMany_complete as rest valid
  canonical := by
    intro bs as rest h
    rw [Option.bind_eq_some_iff] at h
    obtain ⟨⟨n, tail⟩, count, values⟩ := h
    obtain ⟨short, rfl⟩ := compactSize.canonical _ _ _ count
    obtain ⟨rfl, valid, rfl⟩ := c.decodeMany_canonical _ _ _ _ values
    exact ⟨⟨short, valid⟩, (List.append_assoc _ _ _).symm⟩

/-- A count and that many bytes. -/
def prefixed : Codec (List UInt8) where
  Valid bs := bs.length < 2 ^ 64
  encode bs := compactSize.encode bs.length ++ bs
  decode bs := (compactSize.decode bs).bind fun (n, rest) =>
    ((raw n).decode rest).map fun (a, rest) => (a.data, rest)
  complete := by
    intro bs rest short
    have body : (raw bs.length).decode (bs ++ rest) = some (⟨bs, rfl⟩, rest) :=
      (raw bs.length).complete ⟨bs, rfl⟩ rest trivial
    rw [List.append_assoc, compactSize.complete _ _ short, Option.bind_some]
    simp only [body, Option.map_some]
  canonical := by
    intro bs body rest h
    rw [Option.bind_eq_some_iff] at h
    obtain ⟨⟨n, tail⟩, count, read⟩ := h
    rw [Option.map_eq_some_iff] at read
    obtain ⟨⟨a, tail'⟩, read, eq⟩ := read
    cases eq
    obtain ⟨short, rfl⟩ := compactSize.canonical _ _ _ count
    obtain ⟨_, rfl⟩ := (raw n).canonical _ _ _ read
    rw [a.size]
    exact ⟨short, (List.append_assoc _ _ _).symm⟩

end Codec
