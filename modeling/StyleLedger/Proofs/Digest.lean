import StyleLedger.Identity

/-!
Digests and identifiers by evaluation.

`Digest.sha1` says how a digest is made, of words with thirty-two bits. `Digest.quickSha1` makes it
of numbers, which evaluate fast: every word is replaced by its number, the schedule of a block is
read from a window of sixteen words, and a message is cut into its blocks first. Both give the same
bytes, so where identifiers are computed they are rewritten with `Identity.entityId_eq` before.
-/

namespace StyleLedger

namespace Digest

open Text (Bytes)

/-! ## 1. Words and schedules -/

/-- `UInt32.toNat_add` with the number of words by its name, which the definitions below use. -/
theorem toNat_sum (x y : UInt32) : (x + y).toNat = (x.toNat + y.toNat) % UInt32.size :=
  UInt32.toNat_add x y

/-- A number of thirty-two bits turned to the left. -/
def quickRotate (x n : Nat) : Nat :=
  (x <<< n ||| x >>> (32 - n)) % UInt32.size

theorem toNat_rotate (x : UInt32) {n : UInt32} (hpos : 0 < n.toNat) (hn : n.toNat < 32) :
    (rotate x n).toNat = quickRotate x.toNat n.toNat := by
  have hback : (32 - n).toNat = 32 - n.toNat :=
    UInt32.toNat_sub_of_le _ _ (UInt32.le_iff_toNat_le.2 (Nat.le_of_lt hn))
  have hsmall : x.toNat >>> (32 - n.toNat) < 2 ^ 32 :=
    Nat.lt_of_le_of_lt (Nat.shiftRight_le _ _) x.toNat_lt
  have hsize : UInt32.size = 2 ^ 32 := rfl
  rw [rotate, UInt32.toNat_or, UInt32.toNat_shiftLeft, UInt32.toNat_shiftRight, hback,
    Nat.mod_eq_of_lt hn, Nat.mod_eq_of_lt (show 32 - n.toNat < 32 by omega), quickRotate,
    hsize, Nat.or_mod_two_pow, Nat.mod_eq_of_lt hsmall]

/-- The words of a block. -/
def quickWords : Bytes → List Nat
  | a :: b :: c :: d :: rest =>
    (a.toNat <<< 24 ||| b.toNat <<< 16 ||| c.toNat <<< 8 ||| d.toNat) :: quickWords rest
  | _ => []

/-- A byte that is moved within a word loses nothing. -/
theorem toNat_shiftLeft_byte (x : UInt8) {n : UInt32} (hn : n.toNat ≤ 24) :
    (x.toUInt32 <<< n).toNat = x.toNat <<< n.toNat := by
  have hlt : x.toNat <<< n.toNat < 2 ^ 32 :=
    calc x.toNat <<< n.toNat = x.toNat * 2 ^ n.toNat := Nat.shiftLeft_eq _ _
      _ < 2 ^ 8 * 2 ^ n.toNat := Nat.mul_lt_mul_of_pos_right x.toNat_lt (Nat.two_pow_pos _)
      _ ≤ 2 ^ 8 * 2 ^ 24 := Nat.mul_le_mul_left _ (Nat.pow_le_pow_right (by decide) hn)
      _ = 2 ^ 32 := rfl
  rw [UInt32.toNat_shiftLeft, UInt8.toNat_toUInt32,
    Nat.mod_eq_of_lt (show n.toNat < 32 by omega), Nat.mod_eq_of_lt hlt]

theorem map_toNat_blockWords : ∀ bytes, (blockWords bytes).map UInt32.toNat = quickWords bytes
  | a :: b :: c :: d :: rest => by
    rw [blockWords, quickWords, List.map_cons, map_toNat_blockWords rest, UInt32.toNat_or,
      UInt32.toNat_or, UInt32.toNat_or, toNat_shiftLeft_byte a (by decide),
      toNat_shiftLeft_byte b (by decide), toNat_shiftLeft_byte c (by decide),
      UInt8.toNat_toUInt32]
    rfl
  | [] | [_] | [_, _] | [_, _, _] => rfl

/-- The word that is added to a schedule. -/
def nextWord (words : Array UInt32) : UInt32 :=
  let word (k : Nat) : UInt32 := words[words.size - k]?.getD 0
  rotate (word 3 ^^^ word 8 ^^^ word 14 ^^^ word 16) 1

theorem schedule_succ (words : Array UInt32) (n : Nat) :
    schedule words (n + 1) = schedule (words.push (nextWord words)) n :=
  rfl

/-- The same from a window of the last sixteen words, the oldest first. -/
def quickNext (window : List Nat) : Nat :=
  let word (k : Nat) := window[16 - k]?.getD 0
  quickRotate (word 3 ^^^ word 8 ^^^ word 14 ^^^ word 16) 1

theorem toNat_nextWord (before : List UInt32) {window : List UInt32}
    (hlength : window.length = 16) :
    (nextWord (before ++ window).toArray).toNat = quickNext (window.map UInt32.toNat) := by
  have hword : ∀ k, 1 ≤ k → k ≤ 16 →
      ((before ++ window).toArray[(before ++ window).toArray.size - k]?.getD 0).toNat =
        (window.map UInt32.toNat)[16 - k]?.getD 0 := by
    intro k hpos hk
    have hplace : (before ++ window).length - k = before.length + (16 - k) := by
      simp [hlength]
      omega
    rw [List.size_toArray, hplace, List.getElem?_toArray, List.getElem?_map,
      List.getElem?_append_right (by omega), Nat.add_sub_cancel_left]
    cases window[16 - k]? <;> rfl
  rw [nextWord, toNat_rotate _ (by decide) (by decide), UInt32.toNat_xor, UInt32.toNat_xor,
    UInt32.toNat_xor, hword 3 (by decide) (by decide), hword 8 (by decide) (by decide),
    hword 14 (by decide) (by decide), hword 16 (by decide) (by decide)]
  rfl

/-- The schedule of a block, from a window. -/
def quickSchedule (window : List Nat) : Nat → List Nat
  | 0 => window
  | n + 1 => window.headD 0 :: quickSchedule (window.tail ++ [quickNext window]) n

theorem map_toNat_schedule (before : List UInt32) {window : List UInt32}
    (hlength : window.length = 16) (n : Nat) :
    (schedule (before ++ window).toArray n).toList.map UInt32.toNat =
      before.map UInt32.toNat ++ quickSchedule (window.map UInt32.toNat) n := by
  induction n generalizing before window with
  | zero => simp [schedule, quickSchedule]
  | succ n ih =>
    cases window with
    | nil => simp at hlength
    | cons w rest =>
      have hpush : ∀ next : UInt32, (before ++ w :: rest).toArray.push next =
          ((before ++ [w]) ++ (rest ++ [next])).toArray := by simp
      have hnext := toNat_nextWord before hlength
      -- The oldest word of the window goes to those before it, and the new one comes in.
      rw [schedule_succ, hpush, ih _ (by simpa using hlength)]
      simp only [List.map_append, List.map_cons, List.map_nil] at hnext ⊢
      simp [quickSchedule, hnext]

/-! ## 2. Rounds -/

/-- The five words of the running digest. -/
structure QuickState where
  a : Nat
  b : Nat
  c : Nat
  d : Nat
  e : Nat

/-- A state of words in numbers. -/
def Sha1State.quick (s : Sha1State) : QuickState :=
  ⟨s.a.toNat, s.b.toNat, s.c.toNat, s.d.toNat, s.e.toNat⟩

/-- The mixing function and the constant of a round; the sum may be too large for a word. -/
def quickTerm (i b c d : Nat) : Nat :=
  if i < 20 then ((b &&& c) ||| ((UInt32.size - 1 - b) &&& d)) + 0x5A827999
  else if i < 40 then (b ^^^ c ^^^ d) + 0x6ED9EBA1
  else if i < 60 then ((b &&& c) ||| (b &&& d) ||| (c &&& d)) + 0x8F1BBCDC
  else (b ^^^ c ^^^ d) + 0xCA62C1D6

theorem toNat_roundTerm (i : Nat) (b c d : UInt32) :
    (roundTerm i b c d).toNat = quickTerm i b.toNat c.toNat d.toNat % UInt32.size := by
  simp only [roundTerm, quickTerm, apply_ite UInt32.toNat, apply_ite (· % UInt32.size),
    toNat_sum, UInt32.toNat_or, UInt32.toNat_and, UInt32.toNat_xor, UInt32.toNat_not]
  rfl

/-- One round. -/
def quickRound (s : QuickState) (i word : Nat) : QuickState :=
  { a := (quickRotate s.a 5 + quickTerm i s.b s.c s.d + s.e + word) % UInt32.size
    b := s.a, c := quickRotate s.b 30, d := s.c, e := s.d }

theorem quick_sha1Round (s : Sha1State) (i : Nat) (word : UInt32) :
    (sha1Round s i word).quick = quickRound s.quick i word.toNat := by
  have ha : (rotate s.a 5 + roundTerm i s.b s.c s.d + s.e + word).toNat =
      (quickRotate s.a.toNat 5 + quickTerm i s.b.toNat s.c.toNat s.d.toNat + s.e.toNat +
        word.toNat) % UInt32.size := by
    rw [toNat_sum, toNat_sum, toNat_sum, toNat_roundTerm,
      toNat_rotate _ (by decide) (by decide)]
    -- The words wrap around after every sum, the numbers once at the end.
    simp only [Nat.add_mod_mod, Nat.mod_add_mod]
    rfl
  have hc : (rotate s.b 30).toNat = quickRotate s.b.toNat 30 :=
    toNat_rotate _ (by decide) (by decide)
  simp only [sha1Round, Sha1State.quick, quickRound, ha, hc]

theorem quick_foldl_sha1Round (s : Sha1State) (words : List UInt32) (start : Nat) :
    ((words.zipIdx start).foldl (fun t (w, i) => sha1Round t i w) s).quick =
      ((words.map UInt32.toNat).zipIdx start).foldl (fun t (w, i) => quickRound t i w) s.quick := by
  induction words generalizing s start with
  | nil => rfl
  | cons w words ih =>
    simp only [List.map_cons, List.zipIdx_cons, List.foldl_cons, ih, quick_sha1Round]

/-! ## 3. Messages -/

/-- Two states, word by word. -/
def QuickState.plus (s t : QuickState) : QuickState :=
  { a := (s.a + t.a) % UInt32.size, b := (s.b + t.b) % UInt32.size, c := (s.c + t.c) % UInt32.size
    d := (s.d + t.d) % UInt32.size, e := (s.e + t.e) % UInt32.size }

/-- Takes one block in. -/
def quickAbsorb (s : QuickState) (block : Bytes) : QuickState :=
  s.plus <| (quickSchedule (quickWords block) 64).zipIdx.foldl (fun t (w, i) => quickRound t i w) s

theorem length_blockWords : ∀ bytes : Bytes, (blockWords bytes).length = bytes.length / 4
  | a :: b :: c :: d :: rest => by
    rw [blockWords, List.length_cons, length_blockWords rest]
    simp only [List.length_cons]
    omega
  | [] | [_] | [_, _] | [_, _, _] => by simp [blockWords]

theorem quick_absorb (s : Sha1State) {block : Bytes} (hlength : block.length = 64) :
    (absorb s block).quick = quickAbsorb s.quick block := by
  have hwords : (schedule (blockWords block).toArray 64).toList.map UInt32.toNat =
      quickSchedule (quickWords block) 64 := by
    rw [← map_toNat_blockWords]
    exact map_toNat_schedule [] (by rw [length_blockWords, hlength]) 64
  have hrounds := quick_foldl_sha1Round s (schedule (blockWords block).toArray 64).toList 0
  rw [hwords] at hrounds
  have hplus : ∀ t : Sha1State,
      Sha1State.quick ⟨s.a + t.a, s.b + t.b, s.c + t.c, s.d + t.d, s.e + t.e⟩ =
        s.quick.plus t.quick := fun t => by
    simp only [Sha1State.quick, QuickState.plus, toNat_sum]
  rw [quickAbsorb, ← hrounds, ← hplus, absorb]

/-- The first blocks of some bytes. -/
def blocks : Nat → Bytes → List Bytes
  | 0, _ => []
  | n + 1, bytes => bytes.take 64 :: blocks n (bytes.drop 64)

theorem quick_absorbAll (s : Sha1State) {n : Nat} {bytes : Bytes}
    (hlength : bytes.length = 64 * n) :
    (absorbAll s n bytes).quick = (blocks n bytes).foldl quickAbsorb s.quick := by
  induction n generalizing s bytes with
  | zero => rfl
  | succ n ih =>
    obtain ⟨b, bs, rfl⟩ := List.exists_cons_of_length_pos (show 0 < bytes.length by omega)
    have htake : ((b :: bs).take 64).length = 64 := List.length_take_of_le (by omega)
    have hdrop : ((b :: bs).drop 64).length = 64 * n := by
      rw [List.length_drop]
      omega
    have hstep : absorbAll s (n + 1) (b :: bs) =
        absorbAll (absorb s ((b :: bs).take 64)) n ((b :: bs).drop 64) := by
      rw [absorbAll.eq_def]
    rw [hstep, ih _ hdrop, quick_absorb s htake, blocks, List.foldl_cons]

theorem length_bigEndian (count n : Nat) : (bigEndian count n).length = count := by
  simp [bigEndian]

theorem length_padded (message : Bytes) :
    (padded message).length = 64 * ((padded message).length / 64) := by
  simp only [padded, List.length_append, List.length_cons, List.length_replicate, length_bigEndian]
  omega

/-- The digest of a message. -/
def quickSha1 (message : Bytes) : Bytes :=
  let bytes := padded message
  let s := (blocks (bytes.length / 64) bytes).foldl quickAbsorb
    ⟨0x67452301, 0xEFCDAB89, 0x98BADCFE, 0x10325476, 0xC3D2E1F0⟩
  [s.a, s.b, s.c, s.d, s.e].flatMap (bigEndian 4)

theorem sha1_eq : sha1 = quickSha1 := by
  funext message
  have hstate := quick_absorbAll {} (length_padded message)
  unfold sha1 quickSha1
  exact congrArg (fun s : QuickState => [s.a, s.b, s.c, s.d, s.e].flatMap (bigEndian 4)) hstate

end Digest

namespace Identity

open Text (Bytes)

/-- The identifier of a name in a name space. -/
def quickOfName (space : Bytes) (name : String) : Bytes :=
  stamp ((Digest.quickSha1 (space ++ Text.Utf8.encode name)).take 16)

/-- The identifier of an entity. -/
def quickEntityId (kind : EntityKind) (key : String) : String :=
  text (quickOfName (quickOfName domainNames kind.name) key)

theorem entityId_eq : entityId = quickEntityId := by
  funext kind key
  rw [entityId, space, ofName, ofName, Digest.sha1_eq]
  rfl

end Identity

end StyleLedger
