import CoapEap.Controller.RadiusAuthenticity
import CoapEap.Library.Streaming

/-!
MD5 and HMAC-MD5 over messages in several pieces (`md5-internal.c`, `md5.c`). The context
keeps the bytes that do not fill a block yet; what comes out is the digest of the pieces
as one message. The context is on the stack, so its block starts with what was there.
-/

namespace CoapEap.Radius

open Library.Buffer Library.Streaming

/-- `buf` of `struct MD5Context`. -/
structure Md5Buf where
  a : UInt32
  b : UInt32
  c : UInt32
  d : UInt32
  deriving DecidableEq, Repr

/-- `struct MD5Context`. -/
structure Md5Context where
  buf : Md5Buf
  bits0 : UInt32
  bits1 : UInt32
  inBytes : Bytes
  deriving DecidableEq, Repr

def f1 (x y z : UInt32) : UInt32 := z ^^^ (x &&& (y ^^^ z))
def f2 (x y z : UInt32) : UInt32 := f1 z x y
def f3 (x y z : UInt32) : UInt32 := x ^^^ y ^^^ z
def f4 (x y z : UInt32) : UInt32 := y ^^^ (x ||| ~~~z)

/-- `MD5STEP`: the new value of `w`. -/
def md5Step (f : UInt32 → UInt32 → UInt32 → UInt32) (w x y z data s : UInt32) : UInt32 :=
  let w := w + f x y z + data
  (w <<< s ||| w >>> (32 - s)) + x

/-- The word, the constant and the shift in each line of `MD5Transform`. -/
def md5Rounds : List ((UInt32 → UInt32 → UInt32 → UInt32) × List (Nat × UInt32 × UInt32)) := [
  (f1,
    [(0, 0xd76aa478, 7), (1, 0xe8c7b756, 12), (2, 0x242070db, 17), (3, 0xc1bdceee, 22),
      (4, 0xf57c0faf, 7), (5, 0x4787c62a, 12), (6, 0xa8304613, 17), (7, 0xfd469501, 22),
      (8, 0x698098d8, 7), (9, 0x8b44f7af, 12), (10, 0xffff5bb1, 17), (11, 0x895cd7be, 22),
      (12, 0x6b901122, 7), (13, 0xfd987193, 12), (14, 0xa679438e, 17), (15, 0x49b40821, 22)]),
  (f2,
    [(1, 0xf61e2562, 5), (6, 0xc040b340, 9), (11, 0x265e5a51, 14), (0, 0xe9b6c7aa, 20),
      (5, 0xd62f105d, 5), (10, 0x02441453, 9), (15, 0xd8a1e681, 14), (4, 0xe7d3fbc8, 20),
      (9, 0x21e1cde6, 5), (14, 0xc33707d6, 9), (3, 0xf4d50d87, 14), (8, 0x455a14ed, 20),
      (13, 0xa9e3e905, 5), (2, 0xfcefa3f8, 9), (7, 0x676f02d9, 14), (12, 0x8d2a4c8a, 20)]),
  (f3,
    [(5, 0xfffa3942, 4), (8, 0x8771f681, 11), (11, 0x6d9d6122, 16), (14, 0xfde5380c, 23),
      (1, 0xa4beea44, 4), (4, 0x4bdecfa9, 11), (7, 0xf6bb4b60, 16), (10, 0xbebfbc70, 23),
      (13, 0x289b7ec6, 4), (0, 0xeaa127fa, 11), (3, 0xd4ef3085, 16), (6, 0x04881d05, 23),
      (9, 0xd9d4d039, 4), (12, 0xe6db99e5, 11), (15, 0x1fa27cf8, 16), (2, 0xc4ac5665, 23)]),
  (f4,
    [(0, 0xf4292244, 6), (7, 0x432aff97, 10), (14, 0xab9423a7, 15), (5, 0xfc93a039, 21),
      (12, 0x655b59c3, 6), (3, 0x8f0ccc92, 10), (10, 0xffeff47d, 15), (1, 0x85845dd1, 21),
      (8, 0x6fa87e4f, 6), (15, 0xfe2ce6e0, 10), (6, 0xa3014314, 15), (13, 0x4e0811a1, 21),
      (4, 0xf7537e82, 6), (11, 0xbd3af235, 10), (2, 0x2ad7d2bb, 15), (9, 0xeb86d391, 21)])]

/-- A line of `MD5Transform`. The next line has the registers one place further. -/
def md5Line (f : UInt32 → UInt32 → UInt32 → UInt32) (block : Bytes) (regs : Md5Buf)
    (line : Nat × UInt32 × UInt32) : Md5Buf :=
  let data := fromLe32 (block.drop (4 * line.1)) + line.2.1
  ⟨regs.d, md5Step f regs.a regs.b regs.c regs.d data line.2.2, regs.b, regs.c⟩

/-- `MD5Transform`. After 64 lines the registers are in their places again. -/
def md5Transform (buf : Md5Buf) (block : Bytes) : Md5Buf :=
  let out := md5Rounds.foldl
    (fun regs round => round.2.foldl (md5Line round.1 block) regs) buf
  ⟨buf.a + out.a, buf.b + out.b, buf.c + out.c, buf.d + out.d⟩

def md5Start : Md5Buf := ⟨0x67452301, 0xefcdab89, 0x98badcfe, 0x10325476⟩

/-- `MD5Init` of a context whose block holds stale bytes. -/
def md5Init (stale : Bytes) : Md5Context := ⟨md5Start, 0, 0, stale⟩

/-- The loop over full blocks of `MD5Update`, and the copy of the rest after it. -/
def md5Blocks : Nat → Md5Context → Bytes → Option Md5Context
  | 0, _, _ => none
  | fuel + 1, ctx, data =>
    if data.length ≥ 64 then do
      let inBytes ← write ctx.inBytes 0 (data.take 64)
      md5Blocks fuel { ctx with buf := md5Transform ctx.buf inBytes, inBytes } (data.drop 64)
    else do
      let inBytes ← write ctx.inBytes 0 data
      some { ctx with inBytes }

/-- The bit count after `len` bytes more. -/
def addBits (ctx : Md5Context) (len : UInt32) : Md5Context :=
  let bits0 := ctx.bits0 + (len <<< 3)
  let bits1 := if bits0 < ctx.bits0 then ctx.bits1 + 1 else ctx.bits1
  { ctx with bits0, bits1 := bits1 + (len >>> 29) }

/-- The bytes that wait in the block, as the bit count has them. -/
def waiting (ctx : Md5Context) : Nat := ((ctx.bits0 >>> 3) &&& 0x3f).toNat

/-- `MD5Update`. -/
def md5Update (ctx : Md5Context) (data : Bytes) : Option Md5Context :=
  let len := data.length
  let t := waiting ctx
  let ctx := addBits ctx (UInt32.ofNat len)
  if t ≠ 0 then
    if len < 64 - t then do
      let inBytes ← write ctx.inBytes t data
      some { ctx with inBytes }
    else do
      let inBytes ← write ctx.inBytes t (data.take (64 - t))
      md5Blocks (len + 1) { ctx with buf := md5Transform ctx.buf inBytes, inBytes }
        (data.drop (64 - t))
  else md5Blocks (len + 1) ctx data

/-- What `os_memset` writes. -/
def zeros (n : Nat) : Bytes := List.replicate n 0

def digestBytes (buf : Md5Buf) : Bytes := le32 buf.a ++ le32 buf.b ++ le32 buf.c ++ le32 buf.d

/-- `MD5Final`. -/
def md5Final (ctx : Md5Context) : Option Bytes := do
  let first := waiting ctx
  let count := 64 - 1 - first
  let inBytes ← write ctx.inBytes first [0x80]
  let (buf, inBytes) ←
    if count < 8 then do
      let inBytes ← write inBytes (first + 1) (zeros count)
      let buf := md5Transform ctx.buf inBytes
      let inBytes ← write inBytes 0 (zeros 56)
      some (buf, inBytes)
    else do
      let inBytes ← write inBytes (first + 1) (zeros (count - 8))
      some (ctx.buf, inBytes)
  let inBytes ← write inBytes 56 (le32 ctx.bits0)
  let inBytes ← write inBytes 60 (le32 ctx.bits1)
  some (digestBytes (md5Transform buf inBytes))

/-- What `MD5Update` gets of a piece, whose length is an `unsigned` there. -/
def cut (data : Bytes) : Bytes := data.take (data.length % 4294967296)

/-- `md5_vector`. -/
def md5Vector (stale : Bytes) (pieces : List Bytes) : Option Bytes := do
  let ctx ← pieces.foldlM (fun ctx data => md5Update ctx (cut data)) (md5Init stale)
  md5Final ctx

/-- `hmac_md5_vector`. -/
def hmacMd5Vector (stale key : Bytes) (pieces : List Bytes) : Option Bytes :=
  if pieces.length > 5 then none
  else do
    let key ← if key.length > 64 then md5Vector stale [key] else some key
    let kPad ← write (zeros 64) 0 key
    let mac ← md5Vector stale (kPad.map (· ^^^ 0x36) :: pieces)
    md5Vector stale [kPad.map (· ^^^ 0x5c), mac]

/-- A message with a one, zeros up to eight bytes before the end of a block, and the
number of its bits. -/
def padded (data : Bytes) : Bytes :=
  data ++ [0x80] ++ zeros ((119 - data.length % 64) % 64) ++
    le32 (UInt32.ofNat (8 * data.length)) ++ le32 (UInt32.ofNat (8 * data.length / 4294967296))

def md5 (data : Bytes) : Bytes :=
  digestBytes (absorbAll md5Transform 64 md5Start (padded data)).1

example : md5 [0x61, 0x62, 0x63] =
    [0x90, 0x01, 0x50, 0x98, 0x3c, 0xd2, 0x4f, 0xb0, 0xd6, 0x96, 0x3f, 0x7d, 0x28, 0xe1, 0x7f,
      0x72] := by
  decide +kernel

theorem md5_length (data : Bytes) : (md5 data).length = md5MacLen := rfl

/-- The context after the bytes of a message: their number in bits, the blocks that are
full, and the rest in front of what was in the block before. -/
structure Absorbed (ctx : Md5Context) (data : Bytes) : Prop where
  bits : ctx.bits0.toNat + 4294967296 * ctx.bits1.toNat =
    8 * data.length % 18446744073709551616
  room : ctx.inBytes.length = 64
  buf : ctx.buf = (absorbAll md5Transform 64 md5Start data).1
  rest : (absorbAll md5Transform 64 md5Start data).2 <+: ctx.inBytes

variable {ctx ctx' : Md5Context} {data more stale key : Bytes} {pieces : List Bytes}

theorem absorbed_md5Init (h : stale.length = 64) : Absorbed (md5Init stale) [] where
  bits := rfl
  room := h
  buf := rfl
  rest := List.nil_prefix

theorem Absorbed.waiting (h : Absorbed ctx data) : waiting ctx = data.length % 64 := by
  have hbits := h.bits
  have hlow := UInt32.toNat_lt ctx.bits0
  have hmask : ∀ n : Nat, n &&& 63 = n % 64 := fun n => Nat.and_two_pow_sub_one_eq_mod n 6
  have hthree : (3 : UInt32).toNat % 32 = 3 := rfl
  have hcount : (0x3f : UInt32).toNat = 63 := rfl
  rw [Radius.waiting, UInt32.toNat_and, UInt32.toNat_shiftRight, hthree, hcount, hmask,
    Nat.shiftRight_eq_div_pow]
  omega

/-- The carry into the high word is counted, up to 64 bits. -/
theorem addBits_bits (ctx : Md5Context) {len : Nat} (hlen : len < 4294967296) :
    (addBits ctx (UInt32.ofNat len)).bits0.toNat +
        4294967296 * (addBits ctx (UInt32.ofNat len)).bits1.toNat =
      (ctx.bits0.toNat + 4294967296 * ctx.bits1.toNat + 8 * len) % 18446744073709551616 := by
  have hlow := UInt32.toNat_lt ctx.bits0
  have hhigh := UInt32.toNat_lt ctx.bits1
  have hof : (UInt32.ofNat len).toNat = len := by
    rw [UInt32.toNat_ofNat']
    omega
  have hthree : (3 : UInt32).toNat % 32 = 3 := rfl
  have htop : (29 : UInt32).toNat % 32 = 29 := rfl
  have hone : (1 : UInt32).toNat = 1 := rfl
  have hleft : (UInt32.ofNat len <<< 3).toNat = 8 * len % 4294967296 := by
    rw [UInt32.toNat_shiftLeft, hof, hthree, Nat.shiftLeft_eq]
    omega
  have hright : (UInt32.ofNat len >>> 29).toNat = len / 536870912 := by
    rw [UInt32.toNat_shiftRight, hof, htop, Nat.shiftRight_eq_div_pow]
  simp only [addBits, UInt32.lt_iff_toNat_lt]
  split
  · rename_i hcarry
    simp only [UInt32.toNat_add, hleft, hright, hone] at hcarry ⊢
    omega
  · rename_i hcarry
    simp only [UInt32.toNat_add, hleft, hright] at hcarry ⊢
    omega

/-- The loop over full blocks leaves the rest in the block. -/
theorem md5Blocks_eq (fuel : Nat) (ctx : Md5Context) (data : Bytes)
    (hroom : ctx.inBytes.length = 64) (hfuel : data.length < fuel) :
    ∃ inBytes, inBytes.length = 64 ∧ (absorbAll md5Transform 64 ctx.buf data).2 <+: inBytes ∧
      md5Blocks fuel ctx data =
        some { ctx with buf := (absorbAll md5Transform 64 ctx.buf data).1, inBytes } := by
  induction data using blockInduction (by decide : 0 < 64) generalizing fuel ctx with
  | short data hshort =>
    obtain ⟨fuel, rfl⟩ : ∃ rest, fuel = rest + 1 := ⟨fuel - 1, by omega⟩
    have hfits : data.length ≤ ctx.inBytes.length := by omega
    have hwrite := write_behind [] hfits
    refine ⟨data ++ ctx.inBytes.drop data.length, ?_, ?_, ?_⟩
    · rw [List.length_append, List.length_drop]
      omega
    · rw [absorbAll_short hshort]
      exact List.prefix_append _ _
    · rw [md5Blocks, if_neg (Nat.not_le.mpr hshort), absorbAll_short hshort]
      simp only [List.nil_append, List.length_nil] at hwrite
      simp only [hwrite, Option.bind_eq_bind, Option.bind_some]
  | block block data hlength ih =>
    rw [List.length_append] at hfuel
    obtain ⟨fuel, rfl⟩ : ∃ rest, fuel = rest + 1 := ⟨fuel - 1, by omega⟩
    have hfull : (block ++ data).length ≥ 64 := by
      rw [List.length_append]
      omega
    have htake : (block ++ data).take 64 = block := by rw [← hlength, List.take_left]
    have hdrop : (block ++ data).drop 64 = data := by rw [← hlength, List.drop_left]
    have hwrite : write ctx.inBytes 0 block = some block := by
      have hsame : ctx.inBytes.length = block.length := hroom.trans hlength.symm
      simpa using write_front [] hsame
    obtain ⟨inBytes, hbytes, hrest, hrun⟩ := ih fuel
      { ctx with buf := md5Transform ctx.buf block, inBytes := block } hlength (by omega)
    refine ⟨inBytes, hbytes, ?_, ?_⟩
    · rw [absorbAll_block (by decide) hlength]
      exact hrest
    · rw [md5Blocks, if_pos hfull, htake, hdrop, hwrite, Option.bind_eq_bind, Option.bind_some,
        hrun, absorbAll_block (by decide) hlength]

theorem Absorbed.split (h : Absorbed ctx data) :
    ∃ rest free, ctx.inBytes = rest ++ free ∧ rest.length = data.length % 64 ∧
      free.length = 64 - data.length % 64 ∧
      absorbAll md5Transform 64 md5Start data = (ctx.buf, rest) := by
  obtain ⟨free, hfree⟩ := h.rest
  have hlength := absorbAll_rest_length (by decide : 0 < 64) md5Transform md5Start data
  have hroom := h.room
  rw [← hfree, List.length_append, hlength] at hroom
  refine ⟨_, free, hfree.symm, hlength, by omega, ?_⟩
  rw [h.buf]

/-- `MD5Update` never leaves the block, and takes the piece behind the message. -/
theorem Absorbed.update (h : Absorbed ctx data) (hmore : more.length < 4294967296) :
    ∃ ctx', md5Update ctx more = some ctx' ∧ Absorbed ctx' (data ++ more) := by
  obtain ⟨rest, free, hsplit, hrest, hfree, habsorb⟩ := h.split
  have hbits : ∀ ctx' : Md5Context,
      ctx'.bits0 = (addBits ctx (UInt32.ofNat more.length)).bits0 →
      ctx'.bits1 = (addBits ctx (UInt32.ofNat more.length)).bits1 →
      ctx'.bits0.toNat + 4294967296 * ctx'.bits1.toNat =
        8 * (data ++ more).length % 18446744073709551616 := by
    intro ctx' hlow hhigh
    rw [hlow, hhigh, addBits_bits ctx hmore, h.bits, List.length_append]
    omega
  have happend : absorbAll md5Transform 64 md5Start (data ++ more) =
      absorbAll md5Transform 64 ctx.buf (rest ++ more) := by
    rw [absorbAll_append (by decide), habsorb]
  have hwaiting := h.waiting
  unfold md5Update
  simp only [hwaiting]
  by_cases hnone : data.length % 64 = 0
  · -- no byte waits
    have hempty : rest = [] := List.length_eq_zero_iff.mp (hrest.trans hnone)
    obtain ⟨inBytes, hroom, hprefix, hrun⟩ := md5Blocks_eq (more.length + 1)
      (addBits ctx (UInt32.ofNat more.length)) more h.room (Nat.lt_succ_self _)
    rw [if_neg (not_not.mpr hnone), hrun]
    rw [hempty, List.nil_append] at happend
    refine ⟨_, rfl, hbits _ rfl rfl, hroom, ?_, ?_⟩
    · rw [happend]
      rfl
    · rw [happend]
      exact hprefix
  · rw [if_pos hnone]
    by_cases hshort : more.length < 64 - data.length % 64
    · -- the piece does not fill the block
      have hwrite : write ctx.inBytes (data.length % 64) more =
          some (rest ++ more ++ free.drop more.length) := by
        rw [hsplit, ← hrest]
        exact write_behind rest (by omega)
      have hpart : absorbAll md5Transform 64 ctx.buf (rest ++ more) = (ctx.buf, rest ++ more) := by
        apply absorbAll_short
        rw [List.length_append]
        omega
      rw [if_pos hshort]
      simp only [addBits, hwrite, Option.bind_eq_bind, Option.bind_some]
      refine ⟨_, rfl, hbits _ rfl rfl, ?_, ?_, ?_⟩
      · simp only [List.length_append, List.length_drop]
        omega
      · rw [happend, hpart]
      · rw [happend, hpart]
        exact List.prefix_append _ _
    · -- the piece fills the block that waits
      set first := more.take (64 - data.length % 64) with hfirst
      have hfill : first.length = 64 - data.length % 64 := by
        rw [hfirst, List.length_take]
        omega
      have hwrite : write ctx.inBytes (data.length % 64) first = some (rest ++ first) := by
        rw [hsplit, ← hrest, write_behind rest (by omega), List.drop_eq_nil_of_le (by omega),
          List.append_nil]
      have hblock : (rest ++ first).length = 64 := by
        rw [List.length_append]
        omega
      have hwhole : rest ++ more = (rest ++ first) ++ more.drop (64 - data.length % 64) := by
        rw [List.append_assoc, hfirst, List.take_append_drop]
      have hfuel : (more.drop (64 - data.length % 64)).length < more.length + 1 := by
        rw [List.length_drop]
        omega
      rw [if_neg hshort]
      simp only [addBits, hwrite, Option.bind_eq_bind, Option.bind_some]
      obtain ⟨inBytes, hroom, hprefix, hrun⟩ := md5Blocks_eq (more.length + 1)
        { addBits ctx (UInt32.ofNat more.length) with
          buf := md5Transform ctx.buf (rest ++ first), inBytes := rest ++ first }
        (more.drop (64 - data.length % 64)) hblock hfuel
      simp only [addBits] at hrun
      rw [hrun]
      rw [hwhole, absorbAll_block (by decide) hblock] at happend
      refine ⟨_, rfl, hbits _ rfl rfl, hroom, ?_, ?_⟩
      · rw [happend]
      · rw [happend]
        exact hprefix

/-- The bits that `MD5Final` stores are those of the message. -/
theorem Absorbed.bits_eq (h : Absorbed ctx data) :
    ctx.bits0 = UInt32.ofNat (8 * data.length) ∧
      ctx.bits1 = UInt32.ofNat (8 * data.length / 4294967296) := by
  have hbits := h.bits
  have hlow := UInt32.toNat_lt ctx.bits0
  have hhigh := UInt32.toNat_lt ctx.bits1
  constructor
  · apply UInt32.toNat.inj
    rw [UInt32.toNat_ofNat']
    omega
  · apply UInt32.toNat.inj
    rw [UInt32.toNat_ofNat']
    omega

/-- Writes that follow each other fill a block from its start. -/
theorem write_next {front cells values : Bytes} {pos : Nat} (hpos : front.length = pos)
    (h : values.length ≤ cells.length) :
    write (front ++ cells) pos values = some (front ++ values ++ cells.drop values.length) := by
  rw [← hpos]
  exact write_behind front h

/-- The bit count at the end of a block. -/
theorem write_bits {front cells : Bytes} (low high : UInt32) (hfront : front.length = 56)
    (hcells : cells.length = 8) :
    ∃ half, write (front ++ cells) 56 (le32 low) = some half ∧
      write half 60 (le32 high) = some (front ++ le32 low ++ le32 high) := by
  have hword : ∀ n, (le32 n).length = 4 := fun _ => rfl
  have hroom : (le32 low).length ≤ cells.length := by
    rw [hword, hcells]
    decide
  have hhalf : (front ++ le32 low).length = 60 := by rw [List.length_append, hfront, hword]
  have hrest : (le32 high).length ≤ (cells.drop (le32 low).length).length :=
    Nat.le_of_eq (by rw [List.length_drop, hword, hword, hcells])
  have hnone : (cells.drop (le32 low).length).drop (le32 high).length = [] := by
    rw [List.drop_drop, hword, hword]
    exact List.drop_eq_nil_of_le (Nat.le_of_eq hcells)
  refine ⟨_, write_next hfront hroom, ?_⟩
  rw [write_next hhalf hrest, hnone, List.append_nil]

/-- One full block. -/
theorem absorbAll_one {block : Bytes} (buf : Md5Buf) (h : block.length = 64) :
    (absorbAll md5Transform 64 buf block).1 = md5Transform buf block := by
  have hblock : absorbAll md5Transform 64 buf (block ++ []) =
      absorbAll md5Transform 64 (md5Transform buf block) [] :=
    absorbAll_block (by decide) h buf []
  rw [List.append_nil] at hblock
  rw [hblock]
  rfl

/-- `MD5Final` gives the digest of the message. -/
theorem Absorbed.final (h : Absorbed ctx data) : md5Final ctx = some (md5 data) := by
  obtain ⟨rest, free, hsplit, hrest, hfree, habsorb⟩ := h.split
  obtain ⟨hlow, hhigh⟩ := h.bits_eq
  have hmod : data.length % 64 < 64 := Nat.mod_lt _ (by decide)
  have hwaiting := h.waiting
  have hone : [(0x80 : UInt8)].length ≤ free.length := by
    rw [List.length_singleton]
    omega
  have hmark : write ctx.inBytes (data.length % 64) [0x80] =
      some (rest ++ [0x80] ++ free.drop 1) := by
    rw [hsplit]
    exact write_next hrest hone
  have hmarked : (rest ++ [(0x80 : UInt8)]).length = data.length % 64 + 1 := by
    rw [List.length_append, hrest, List.length_singleton]
  have hcells : (free.drop 1).length = 64 - 1 - data.length % 64 := by
    rw [List.length_drop]
    omega
  have hpadded : absorbAll md5Transform 64 md5Start (padded data) =
      absorbAll md5Transform 64 ctx.buf (rest ++ [0x80] ++
        zeros ((119 - data.length % 64) % 64) ++
          le32 ctx.bits0 ++ le32 ctx.bits1) := by
    rw [hlow, hhigh, padded]
    simp only [List.append_assoc]
    rw [absorbAll_append (by decide), habsorb]
  have hwords : ∀ n, (le32 n).length = 4 := fun _ => rfl
  unfold md5Final
  simp only [hwaiting, hmark, Option.bind_eq_bind, Option.bind_some]
  rw [md5, hpadded]
  have hlength : ∀ n, (zeros n).length = n := fun n => List.length_replicate
  by_cases htwo : 64 - 1 - data.length % 64 < 8
  · -- the bit count stands in a block of its own
    have hfits : (zeros (64 - 1 - data.length % 64)).length ≤ (free.drop 1).length := by
      rw [hlength]
      exact Nat.le_of_eq hcells.symm
    have hnone : (free.drop 1).drop (zeros (64 - 1 - data.length % 64)).length = [] := by
      rw [hlength, ← hcells, List.drop_length]
    have hfull : (rest ++ [0x80] ++ zeros (64 - 1 - data.length % 64)).length = 64 := by
      rw [List.length_append, hmarked, hlength]
      omega
    have hroom : (zeros 56).length ≤
        (rest ++ [0x80] ++ zeros (64 - 1 - data.length % 64)).length := by
      rw [hlength, hfull]
      decide
    have hclear := write_behind [] hroom
    rw [List.nil_append, List.nil_append, List.length_nil] at hclear
    have height : ((rest ++ [0x80] ++ zeros (64 - 1 - data.length % 64)).drop
        (zeros 56).length).length = 8 := by
      rw [List.length_drop, hfull, hlength]
    obtain ⟨half, hfirst, hsecond⟩ := write_bits ctx.bits0 ctx.bits1 (hlength 56) height
    have hpad : zeros ((119 - data.length % 64) % 64) =
        zeros (64 - 1 - data.length % 64) ++ zeros 56 := by
      simp only [zeros, List.replicate_append_replicate]
      congr 1
      omega
    have hlast : (zeros 56 ++ le32 ctx.bits0 ++ le32 ctx.bits1).length = 64 := rfl
    have hwhole : rest ++ [0x80] ++ zeros ((119 - data.length % 64) % 64) ++ le32 ctx.bits0 ++
          le32 ctx.bits1 =
        rest ++ [0x80] ++ zeros (64 - 1 - data.length % 64) ++
          (zeros 56 ++ le32 ctx.bits0 ++ le32 ctx.bits1) := by
      rw [hpad]
      simp only [List.append_assoc]
    rw [if_pos htwo, write_next hmarked hfits, hnone, List.append_nil]
    simp only [Option.bind_some, hclear, hfirst, hsecond]
    rw [hwhole, absorbAll_block (by decide) hfull, absorbAll_one _ hlast]
  · -- there is room for the bit count in the block of the mark
    have hfits : (zeros (64 - 1 - data.length % 64 - 8)).length ≤ (free.drop 1).length := by
      rw [hlength, hcells]
      omega
    have hfront : (rest ++ [0x80] ++ zeros (64 - 1 - data.length % 64 - 8)).length = 56 := by
      rw [List.length_append, hmarked, hlength]
      omega
    have height : ((free.drop 1).drop
        (zeros (64 - 1 - data.length % 64 - 8)).length).length = 8 := by
      rw [List.length_drop, hlength, hcells]
      omega
    obtain ⟨half, hfirst, hsecond⟩ := write_bits ctx.bits0 ctx.bits1 hfront height
    have hpad : (119 - data.length % 64) % 64 = 64 - 1 - data.length % 64 - 8 := by omega
    have hblock : (rest ++ [0x80] ++ zeros (64 - 1 - data.length % 64 - 8) ++
        le32 ctx.bits0 ++ le32 ctx.bits1).length = 64 := by
      rw [List.length_append, List.length_append, hfront, hwords, hwords]
    rw [if_neg htwo, write_next hmarked hfits]
    simp only [Option.bind_some, hfirst, hsecond]
    rw [hpad, absorbAll_one _ hblock]

theorem cut_length_lt (data : Bytes) : (cut data).length < 4294967296 := by
  have hmod : data.length % 4294967296 < 4294967296 := Nat.mod_lt _ (by decide)
  rw [cut, List.length_take]
  omega

theorem cut_eq (h : data.length < 4294967296) : cut data = data := by
  rw [cut, Nat.mod_eq_of_lt h, List.take_length]

theorem Absorbed.updates (h : Absorbed ctx data) (pieces : List Bytes) :
    ∃ ctx', pieces.foldlM (fun ctx data => md5Update ctx (cut data)) ctx = some ctx' ∧
      Absorbed ctx' (data ++ pieces.flatMap cut) := by
  induction pieces generalizing ctx data with
  | nil => exact ⟨ctx, rfl, by simpa using h⟩
  | cons piece pieces ih =>
    obtain ⟨ctx', hupdate, habsorbed⟩ := h.update (cut_length_lt piece)
    obtain ⟨last, hrest, hlast⟩ := ih habsorbed
    refine ⟨last, ?_, ?_⟩
    · rw [List.foldlM_cons, hupdate]
      exact hrest
    · simpa using hlast

/-- The digest of the pieces is that of the message they make. -/
theorem md5Vector_eq (h : stale.length = 64) (pieces : List Bytes) :
    md5Vector stale pieces = some (md5 (pieces.flatMap cut)) := by
  obtain ⟨ctx, hrun, habsorbed⟩ := (absorbed_md5Init h).updates pieces
  rw [md5Vector, hrun, Option.bind_eq_bind, Option.bind_some, habsorbed.final, List.nil_append]

theorem flatMap_cut (h : ∀ piece ∈ pieces, piece.length < 4294967296) :
    pieces.flatMap cut = pieces.flatten := by
  induction pieces with
  | nil => rfl
  | cons piece pieces ih =>
    rw [List.forall_mem_cons] at h
    rw [List.flatMap_cons, List.flatten_cons, cut_eq h.1, ih h.2]

/-- The key in the block that both paddings are made from. -/
theorem write_key (h : key.length ≤ 64) :
    write (zeros 64) 0 key = some (key ++ List.replicate (64 - key.length) 0) := by
  have hfits : key.length ≤ (zeros 64).length := h
  have hwrite := write_behind [] hfits
  rwa [List.nil_append, List.nil_append, List.length_nil, zeros, List.drop_replicate] at hwrite

/-- Both digests of `hmac_md5_vector`, for a key that fits into a block. -/
theorem hmacMd5_run (hstale : stale.length = 64)
    (hpieces : ∀ piece ∈ pieces, piece.length < 4294967296) (hkey : key.length ≤ 64) :
    (do
      let kPad ← write (zeros 64) 0 key
      let mac ← md5Vector stale (kPad.map (· ^^^ 0x36) :: pieces)
      md5Vector stale [kPad.map (· ^^^ 0x5c), mac]) =
    some (hmacMd5 md5 key pieces.flatten) := by
  have hpad : ∀ x : UInt8,
      ((key ++ List.replicate (64 - key.length) 0).map (· ^^^ x)).length < 4294967296 := by
    intro x
    rw [List.length_map, List.length_append, List.length_replicate]
    omega
  have hmac : ∀ data, (md5 data).length < 4294967296 := by
    intro data
    rw [md5_length]
    decide
  simp only [write_key hkey, md5Vector_eq hstale, List.flatMap_cons, List.flatMap_nil,
    List.append_nil, cut_eq (hpad _), cut_eq (hmac _), flatMap_cut hpieces, Option.bind_eq_bind,
    Option.bind_some, hmacMd5, if_neg (Nat.not_lt.mpr hkey)]

/-- `hmac_md5_vector` of up to five pieces is the HMAC of the message they make, whatever
was on the stack, and there is none of more. -/
theorem hmacMd5Vector_eq (stale : Bytes) (hstale : stale.length = 64) (key : Bytes)
    (hkey : key.length < 4294967296) (pieces : List Bytes)
    (hpieces : ∀ piece ∈ pieces, piece.length < 4294967296) :
    hmacMd5Vector stale key pieces =
      if pieces.length > 5 then none else some (hmacMd5 md5 key pieces.flatten) := by
  unfold hmacMd5Vector
  by_cases hmany : pieces.length > 5
  · rw [if_pos hmany, if_pos hmany]
  · rw [if_neg hmany, if_neg hmany]
    by_cases hlong : key.length > 64
    · have hhashed : md5Vector stale [key] = some (md5 key) := by
        rw [md5Vector_eq hstale, List.flatMap_singleton, cut_eq hkey]
      have hshort : (md5 key).length ≤ 64 := by
        rw [md5_length]
        decide
      have hsame : hmacMd5 md5 key pieces.flatten = hmacMd5 md5 (md5 key) pieces.flatten := by
        simp only [hmacMd5, if_pos hlong, if_neg (Nat.not_lt.mpr hshort)]
      rw [if_pos hlong, hhashed, hsame]
      exact hmacMd5_run hstale hpieces hshort
    · rw [if_neg hlong]
      exact hmacMd5_run hstale hpieces (Nat.le_of_not_lt hlong)

theorem hmac_of_two_pieces :
    hmacMd5Vector (zeros 64) [0x6b, 0x65, 0x79] [[0x01, 0x02], [0x03]] =
      if 2 > 5 then none else some (hmacMd5 md5 [0x6b, 0x65, 0x79] [0x01, 0x02, 0x03]) :=
  hmacMd5Vector_eq (zeros 64) rfl [0x6b, 0x65, 0x79] (by decide) [[0x01, 0x02], [0x03]]
    (by decide)

end CoapEap.Radius
