/-
  Dosiz/FindTimes.lean
  ====================
  **The time of a file, as a search and as AH=57 give it** (`dos_time_from_unix`,
  `dta_write_entry`, INT 21h AH=57 of `bridge.cc`).

  Both pack the fields of `localtime` into two words.  The date of AH=57 has its year clamped to the seven bits
  there are for it, that of the DTA is cut to them: `fileTimes_iff`.  `localtime` is an argument.
-/
import Dosiz.HostPath
import Dosiz.FileHandles
import Dosiz.LeMemory

namespace Dosiz.FindTimes

open ByteMemory Machine HostPath

/-! ### The two encoders -/

/-- What the program reads of a `struct tm`, in the ranges the C library gives. -/
structure Tm where
  sec : Nat
  min : Nat
  hour : Nat
  mday : Nat
  mon : Nat
  year : Int
  sec_le : sec ≤ 60
  min_lt : min < 60
  hour_lt : hour < 24
  mday_pos : 1 ≤ mday
  mday_le : mday ≤ 31
  mon_lt : mon < 12

/-- `dos_time_from_unix`, behind `localtime`: the date and the time. -/
def dosTimeFromUnix (lt : Tm) : Nat × Nat :=
  let dostime := (lt.hour <<< 11 ||| lt.min <<< 5 ||| lt.sec / 2) % 65536
  let date := BitVec.ofInt 32 (lt.year + 1900 - 1980) <<< 9 ||| BitVec.ofNat 32 ((lt.mon + 1) <<< 5) |||
    BitVec.ofNat 32 lt.mday
  (date.toNat % 65536, dostime)

/-- What `stat` and `fstat` tell of a file. -/
structure Stat where
  isDir : Bool
  mtime : Int
  size : Nat

def wordBytes (n : Nat) : List Nat := [n % 256, n / 256 % 256]

def dwordBytes (n : Nat) : List Nat := wordBytes n ++ wordBytes (n / 65536)

/-- The magic "DSFN" and the key of the search, or nothing. -/
def tokenBytes (token : Nat) : List Nat :=
  if token = 0 then List.replicate 8 0 else "DSFN".toList.map Char.toNat ++ dwordBytes token

/-- Twelve characters at most, and zeros up to the thirteenth. -/
def nameField (name : Str) : List Nat :=
  (name.take 12).map (fun c => c.toNat % 256) ++ List.replicate (13 - (name.take 12).length) 0

/-- The attribute, time, date, size and name of an entry. -/
def entryBytes (localtime : Int → Tm) (st : Stat) (name : Str) : List Nat :=
  let r := dosTimeFromUnix (localtime st.mtime)
  (if st.isDir then 0x10 else 0x20) :: wordBytes r.2 ++ wordBytes r.1 ++ dwordBytes st.size ++ nameField name

/-- The bytes of a DTA: the reserved area with the key, and the entry. -/
def dtaBytes (localtime : Int → Tm) (st : Stat) (name : Str) (token : Nat) : List Nat :=
  tokenBytes token ++ List.replicate 13 0 ++ entryBytes localtime st name

/-- `dta_write_entry`; `st` is what `stat` said of the host's file. -/
def dtaWriteEntry (localtime : Int → Tm) (mem : Mem) (dta : Nat) (st : Stat) (name : Str) (token : Nat) : Mem :=
  storeLin mem dta (dtaBytes localtime st name token)

/-- AH=57 with AL=0: the time in CX, the date in DX. -/
def int21_5700 (localtime : Int → Tm) (fstat : Nat → Option Stat) (m : Machine) : Machine × Bool :=
  match sourceFd m with
  | none => failWith m 0x06
  | some fd =>
    match fstat fd with
    | none => failWith m 0x05
    | some st =>
      let tm := localtime st.mtime
      let yr := tm.year + 1900 - 1980
      (m.setR16s [(.ecx, tm.hour <<< 11 ||| tm.min <<< 5 ||| tm.sec >>> 1),
        (.edx, (max 0 (min yr 127)).toNat <<< 9 ||| (tm.mon + 1) <<< 5 ||| tm.mday)], false)

/-! ### What the words say -/

/-- The fields of a DOS time: hour, minute and second. -/
def decodeTime (w : Nat) : Nat × Nat × Nat := (w / 2048, w / 32 % 64, w % 32 * 2)

/-- The fields of a DOS date: year, month and day. -/
def decodeDate (w : Nat) : Int × Nat × Nat := (1980 + (w / 512 : Nat), w / 32 % 16, w % 32)

/-- A word of the guest's memory, at a linear address that may wrap. -/
def wordLin (mem : Mem) (a : Nat) : Nat := readb mem (lin a) + 256 * readb mem (lin (a + 1))

/-- The time and the date the DTA has for a file are those AH=57 gives of it, and decode to the fields of
    `localtime`, with the year brought into 1980 to 2107. -/
def TimesRight (localtime : Int → Tm) (fstat : Nat → Option Stat) (m : Machine) (mem : Mem) (dta : Nat) (st : Stat) :
    Prop :=
  let m' := (int21_5700 localtime fstat m).1
  let tm := localtime st.mtime
  (int21_5700 localtime fstat m).2 = false ∧ wordLin mem (dta + 0x16) = m'.cx ∧ wordLin mem (dta + 0x18) = m'.dx ∧
    decodeTime m'.cx = (tm.hour, tm.min, tm.sec / 2 * 2) ∧
    decodeDate m'.dx = (max 1980 (min (tm.year + 1900) 2107), tm.mon + 1, tm.mday)

/-- The seven bits of the year come out the same, cut or clamped. -/
def YearFits (year : Int) : Prop :=
  (1980 ≤ year ∧ year ≤ 2107) ∨ (year < 1980 ∧ (128 : Int) ∣ 1980 - year) ∨ (2107 < year ∧ (128 : Int) ∣ year - 2107)

instance (year : Int) : Decidable (YearFits year) := inferInstanceAs (Decidable (_ ∨ _ ∨ _))

/-! ### Packing -/

/-- Three fields side by side. -/
theorem pack_fields {a b c i j : Nat} (hb : b < 2 ^ (i - j)) (hj : j ≤ i) (hc : c < 2 ^ j) :
    a <<< i ||| b <<< j ||| c = a * 2 ^ i + b * 2 ^ j + c := by
  have hlow : b <<< j ||| c = b * 2 ^ j + c := by
    rw [← Nat.shiftLeft_add_eq_or_of_lt hc, Nat.shiftLeft_eq]
  have hlt : b * 2 ^ j + c < 2 ^ i := by
    have hle : (b + 1) * 2 ^ j ≤ 2 ^ (i - j) * 2 ^ j := Nat.mul_le_mul_right _ hb
    rw [← Nat.pow_add, Nat.sub_add_cancel hj, Nat.succ_mul] at hle
    omega
  rw [Nat.or_assoc, hlow, ← Nat.shiftLeft_add_eq_or_of_lt hlt, Nat.shiftLeft_eq, Nat.add_assoc]

section Packed

variable (tm : Tm)

theorem time_packed : tm.hour <<< 11 ||| tm.min <<< 5 ||| tm.sec / 2 = tm.hour * 2048 + tm.min * 32 + tm.sec / 2 := by
  have hmin := tm.min_lt
  have hsec := tm.sec_le
  exact pack_fields (by omega) (by decide) (by omega)

theorem time_lt : tm.hour * 2048 + tm.min * 32 + tm.sec / 2 < 65536 := by
  have hhour := tm.hour_lt
  have hmin := tm.min_lt
  have hsec := tm.sec_le
  omega

theorem date_packed (y : Nat) :
    y <<< 9 ||| (tm.mon + 1) <<< 5 ||| tm.mday = y * 512 + (tm.mon + 1) * 32 + tm.mday := by
  have hmon := tm.mon_lt
  have hmday := tm.mday_le
  exact pack_fields (by omega) (by decide) (by omega)

/-- The DTA's date: seven bits of the year. -/
theorem dosTime_date : (dosTimeFromUnix tm).1 =
    ((tm.year + 1900 - 1980) % 128).toNat * 512 + (tm.mon + 1) * 32 + tm.mday := by
  have hmon := tm.mon_lt
  have hmday := tm.mday_le
  have hmonth : (tm.mon + 1) <<< 5 < 4294967296 := by
    rw [Nat.shiftLeft_eq]
    omega
  have hyear : (BitVec.ofInt 32 (tm.year + 1900 - 1980) <<< 9).toNat % 65536 =
      ((tm.year + 1900 - 1980) % 128).toNat <<< 9 := by
    rw [BitVec.toNat_shiftLeft, BitVec.toNat_ofInt, Nat.shiftLeft_eq, Nat.shiftLeft_eq]
    generalize tm.year + 1900 - 1980 = yr
    omega
  show BitVec.toNat _ % 2 ^ 16 = _
  rw [BitVec.toNat_or, BitVec.toNat_or, Nat.or_mod_two_pow, Nat.or_mod_two_pow, hyear, BitVec.toNat_ofNat,
    BitVec.toNat_ofNat, Nat.mod_eq_of_lt hmonth, Nat.mod_eq_of_lt (by omega : tm.mday < 2 ^ 32)]
  rw [Nat.mod_eq_of_lt (by rw [Nat.shiftLeft_eq]; omega : (tm.mon + 1) <<< 5 < 2 ^ 16),
    Nat.mod_eq_of_lt (by omega : tm.mday < 2 ^ 16), date_packed]

theorem dosTime_time : (dosTimeFromUnix tm).2 = tm.hour * 2048 + tm.min * 32 + tm.sec / 2 := by
  show (_ : Nat) % 65536 = _
  rw [time_packed, Nat.mod_eq_of_lt (time_lt tm)]

end Packed

/-! ### The DTA read back -/

theorem readb_storeLin (mem : Mem) (a : Nat) (bs : List Nat) (hlen : bs.length ≤ 4294967296) {i : Nat}
    (h : i < bs.length) : readb (storeLin mem a bs) (lin (a + i)) = bs[i] % 256 := by
  induction bs generalizing mem a i with
  | nil => cases h
  | cons b bs ih =>
    rw [List.length_cons] at hlen h
    cases i with
    | succ i =>
      rw [storeLin, show a + (i + 1) = a + 1 + i by omega]
      exact ih _ _ (by omega) (by omega)
    | zero =>
      -- the bytes behind it are stored elsewhere
      have hoff : ∀ j < bs.length, lin (a + 1 + j) ≠ lin (a + 0) := fun j hj heq => by
        rw [Nat.add_assoc] at heq
        exact absurd (lin_add_inj (by omega) (by omega) heq) (by omega)
      have hkeep := storeLin_off (writeb mem (lin a) b) (a + 1) bs (lin (a + 0)) fun ⟨j, hj, heq⟩ => hoff j hj heq.symm
      rw [storeLin, readb, hkeep]
      exact readb_writeb mem (lin a) b

theorem tokenBytes_length (token : Nat) : (tokenBytes token).length = 8 := by
  unfold tokenBytes
  split <;> rfl

theorem nameField_length (name : Str) : (nameField name).length = 13 := by
  have htake := List.length_take_le 12 name
  rw [nameField, List.length_append, List.length_map, List.length_replicate]
  omega

theorem dtaBytes_length (localtime : Int → Tm) (st : Stat) (name : Str) (token : Nat) :
    (dtaBytes localtime st name token).length = 43 := by
  simp only [dtaBytes, entryBytes, List.length_append, List.length_cons, tokenBytes_length, nameField_length]
  rfl

/-- Two bytes of a list that is stored, read as a word. -/
theorem wordLin_storeLin (mem : Mem) (a : Nat) {front back : List Nat} {w : Nat}
    (hlen : (front ++ wordBytes w ++ back).length ≤ 4294967296) (hw : w < 65536) :
    wordLin (storeLin mem a (front ++ wordBytes w ++ back)) (a + front.length) = w := by
  have hfirst : front.length < (front ++ wordBytes w ++ back).length := by
    simp only [List.length_append, wordBytes, List.length_cons]
    omega
  have hsecond : front.length + 1 < (front ++ wordBytes w ++ back).length := by
    simp only [List.length_append, wordBytes, List.length_cons]
    omega
  have hget : (front ++ wordBytes w ++ back)[front.length] = w % 256 ∧
      (front ++ wordBytes w ++ back)[front.length + 1] = w / 256 % 256 := by
    constructor <;> simp [wordBytes]
  rw [wordLin, readb_storeLin mem a _ hlen hfirst, Nat.add_assoc, readb_storeLin mem a _ hlen hsecond, hget.1, hget.2]
  omega

section ReadBack

variable (localtime : Int → Tm) (mem : Mem) (dta : Nat) (st : Stat) (name : Str) (token : Nat)

/-- What stands before the time and behind the date. -/
theorem dtaBytes_words : ∃ front back, front.length = 0x16 ∧ dtaBytes localtime st name token =
    front ++ wordBytes (dosTimeFromUnix (localtime st.mtime)).2 ++
      (wordBytes (dosTimeFromUnix (localtime st.mtime)).1 ++ back) := by
  refine ⟨tokenBytes token ++ List.replicate 13 0 ++ [if st.isDir then 0x10 else 0x20],
    dwordBytes st.size ++ nameField name, ?_, ?_⟩
  · simp only [List.length_append, tokenBytes_length]
    rfl
  · simp only [dtaBytes, entryBytes, List.append_assoc, List.cons_append, List.nil_append]

theorem dta_time : wordLin (dtaWriteEntry localtime mem dta st name token) (dta + 0x16) =
    (dosTimeFromUnix (localtime st.mtime)).2 := by
  obtain ⟨front, back, hfront, hbytes⟩ := dtaBytes_words localtime st name token
  have hlen := dtaBytes_length localtime st name token
  rw [dtaWriteEntry, ← hfront]
  rw [hbytes] at hlen ⊢
  exact wordLin_storeLin mem dta (by omega) (Nat.mod_lt _ (by decide))

theorem dta_date : wordLin (dtaWriteEntry localtime mem dta st name token) (dta + 0x18) =
    (dosTimeFromUnix (localtime st.mtime)).1 := by
  obtain ⟨front, back, hfront, hbytes⟩ := dtaBytes_words localtime st name token
  have hlen := dtaBytes_length localtime st name token
  have hdate : (front ++ wordBytes (dosTimeFromUnix (localtime st.mtime)).2).length = 0x18 := by
    rw [List.length_append, hfront]
    rfl
  rw [dtaWriteEntry, ← hdate]
  rw [hbytes, ← List.append_assoc] at hlen ⊢
  exact wordLin_storeLin mem dta (by omega) (Nat.mod_lt _ (by decide))

end ReadBack

/-! ### The two agree -/

/-- The year cut to seven bits is the year clamped exactly if it fits. -/
theorem year_agrees_iff (yr : Int) : (yr % 128).toNat = (max 0 (min yr 127)).toNat ↔ YearFits (yr + 1980) := by
  unfold YearFits
  omega

/-- What AH=57 leaves in CX and DX. -/
theorem int21_5700_words (localtime : Int → Tm) {fstat : Nat → Option Stat} {m : Machine} {st : Stat} {fd : Nat}
    (hfd : sourceFd m = some fd) (hst : fstat fd = some st) : (int21_5700 localtime fstat m).2 = false ∧
      (int21_5700 localtime fstat m).1.cx = (dosTimeFromUnix (localtime st.mtime)).2 ∧
      (int21_5700 localtime fstat m).1.dx =
        (max 0 (min ((localtime st.mtime).year + 1900 - 1980) 127)).toNat * 512 +
          ((localtime st.mtime).mon + 1) * 32 + (localtime st.mtime).mday := by
  unfold int21_5700
  rw [hfd]
  dsimp only
  rw [hst, dosTime_time]
  dsimp only
  generalize localtime st.mtime = tm
  have hmon := tm.mon_lt
  have hmday := tm.mday_le
  have hyear : (max 0 (min (tm.year + 1900 - 1980) 127)).toNat < 128 := by omega
  refine ⟨rfl, ?_, ?_⟩
  · simp only [setR16s, List.foldl_cons, List.foldl_nil, cx]
    rw [r16_setR16_of_ne _ _ (by decide), r16_setR16, Nat.shiftRight_eq_div_pow, Nat.pow_one, time_packed,
      Nat.mod_eq_of_lt (time_lt tm)]
  · simp only [setR16s, List.foldl_cons, List.foldl_nil, dx]
    rw [r16_setR16, date_packed, Nat.mod_eq_of_lt (by omega)]

/-- **The time of a file.**  The time and date of the DTA are those of AH=57, and decode to the fields of
    `localtime`, exactly for the years whose seven bits come out the same. -/
theorem fileTimes_iff (localtime : Int → Tm) (fstat : Nat → Option Stat) (m : Machine) (mem : Mem) (dta : Nat)
    (st : Stat) (name : Str) (token : Nat) {fd : Nat} (hfd : sourceFd m = some fd) (hst : fstat fd = some st) :
    TimesRight localtime fstat m (dtaWriteEntry localtime mem dta st name token) dta st ↔
      YearFits ((localtime st.mtime).year + 1900) := by
  obtain ⟨hcf, hcx, hdx⟩ := int21_5700_words localtime hfd hst
  unfold TimesRight
  dsimp only
  rw [hcf, hcx, hdx, dta_time, dta_date, dosTime_time, dosTime_date]
  generalize localtime st.mtime = tm
  have hmin := tm.min_lt
  have hsec := tm.sec_le
  have hmon := tm.mon_lt
  have hmday := tm.mday_le
  have hagree := year_agrees_iff (tm.year + 1900 - 1980)
  rw [show tm.year + 1900 - 1980 + 1980 = tm.year + 1900 by omega] at hagree
  rw [← hagree]
  constructor
  · rintro ⟨-, -, hdate, -⟩
    omega
  · intro hyear
    refine ⟨rfl, rfl, by rw [hyear], ?_, ?_⟩
    · rw [decodeTime, Prod.mk.injEq, Prod.mk.injEq]
      omega
    · rw [decodeDate, Prod.mk.injEq, Prod.mk.injEq]
      omega

def utc (year : Int) : Tm where
  sec := 59
  min := 30
  hour := 23
  mday := 31
  mon := 11
  year := year - 1900
  sec_le := by decide
  min_lt := by decide
  hour_lt := by decide
  mday_pos := by decide
  mday_le := by decide
  mon_lt := by decide

/-- Handle 5 stands for descriptor 3, and BX names it. -/
def openedFile : Machine := { setHandle bootMachine 5 (some 3) with cpu := FileHandles.bxCpu 5 }

theorem fileTimes_iff_2024 : TimesRight (fun _ => utc 2024) (fun _ => some ⟨false, 0, 0⟩) openedFile
    (dtaWriteEntry (fun _ => utc 2024) openedFile.mem 0x1080 ⟨false, 0, 0⟩ "A.TXT".toList 1) 0x1080 ⟨false, 0, 0⟩ :=
  (fileTimes_iff (fun _ => utc 2024) (fun _ => some ⟨false, 0, 0⟩) openedFile openedFile.mem 0x1080
    ⟨false, 0, 0⟩ "A.TXT".toList 1 (rfl : sourceFd openedFile = some 3) rfl).mpr (by decide)

/-- A file of 1970 is one of 2098 in the DTA. -/
theorem fileTimes_1970 : ¬ TimesRight (fun _ => utc 1970) (fun _ => some ⟨false, 0, 0⟩) openedFile
    (dtaWriteEntry (fun _ => utc 1970) openedFile.mem 0x1080 ⟨false, 0, 0⟩ "A.TXT".toList 1) 0x1080 ⟨false, 0, 0⟩ := by
  rintro ⟨-, -, hdate, -⟩
  rw [dta_date] at hdate
  exact absurd hdate (by decide +kernel)

end Dosiz.FindTimes
