/-
  Dosiz/MultiMap.lean
  ===================
  **AH=50 maps what AH=44 maps pair by pair** (INT 67h of `bridge.cc`).

  AH=50 takes an array of pairs, a logical page and the physical page it goes to, given by
  number or by segment.  `mapPairs` is the loop a program would run over the array with
  AH=44: a pair that names none of the four slots is answered with 8Bh.  AH=50 cuts the
  second word to a byte, and rounds a segment down to its slot; `multiMap_iff` says on
  which arrays that makes a difference.
-/
import Dosiz.EmsWindow
import Dosiz.EmsPages
import Dosiz.StatusLoop

namespace Dosiz.Ems

open ByteMemory Machine StatusLoop

/-! ### One call for each pair -/

/-- The physical page the second word of a pair denotes, if any. -/
def pairPage (al sec : Nat) : Option Nat :=
  if al = 1 then (List.range 4).find? fun p => EMS_FRAME_SEG + p * 0x400 = sec
  else if sec ≤ 3 then some sec
  else none

/-- AH=44 with AL and BX for one pair, the registers put back after the call: the machine and the status. -/
def call44 (m : Machine) (p lp : Nat) : Machine × Nat :=
  let m' := int67_44 ((m.setR8l .eax p).setR16 .ebx lp)
  ({ m' with cpu := m.cpu }, m'.r8h .eax)

/-- What a program does with AH=44 for pair `i` of the array. -/
def pairCall (al arr i : Nat) (m : Machine) : Machine × Nat :=
  match pairPage al (readw m.mem (lin (arr + i * 4 + 2))) with
  | none => (m, 0x8B)
  | some p => call44 m p (readw m.mem (lin (arr + i * 4)))

/-- AH=44 for the first `n` pairs of the array at DS:SI, up to the first error. -/
def mapPairs (m : Machine) (n : Nat) : Machine × Nat :=
  upTo (pairCall (m.r8l .eax) (m.segPhys .ds + m.si)) n 0 m

/-- AH=50 with CX = `n` has the effect and the status of the calls. -/
def MapsAsCalls (m : Machine) (n : Nat) : Prop :=
  let r := mapPairs m n
  int67_50 (m.setR16 .ecx n) = ({ r.1 with cpu := (m.setR16 .ecx n).cpu } : Machine).setR8h .eax r.2

theorem pairPage_lt {al sec p : Nat} (h : pairPage al sec = some p) : p < 256 := by
  unfold pairPage at h
  split_ifs at h with hal hsec
  · have hp := List.mem_of_find?_eq_some h
    have hlt := List.mem_range.mp hp
    omega
  · cases h
    omega

/-- A second word that the byte, or the slot of the segment, does not change for another page. -/
def Exact (al sec : Nat) : Prop :=
  if al = 1 then EMS_FRAME_SEG ≤ sec → sec < EMS_FRAME_SEG + 0x1000 → sec % 0x400 = 0
  else sec < 0x100 ∨ 3 < sec % 0x100

/-- Pair `i` of the array is exact if the calls get there. -/
def ExactAt (m : Machine) (i : Nat) : Prop :=
  (mapPairs m i).2 = 0 →
    Exact (m.r8l .eax) (readw (mapPairs m i).1.mem (lin (m.segPhys .ds + m.si + i * 4 + 2)))

/-! ### The registers play no part -/

theorem emsLoadSlot_cpu (m : Machine) (c : Cpu) {s : Nat} (pp : Nat) (hs : ¬ 3 < s) :
    emsLoadSlot { m with cpu := c } s pp = { emsLoadSlot m s pp with cpu := c } := by
  rw [emsLoadSlot, emsLoadSlot, if_neg hs, if_neg hs]

theorem emsMap_cpu (m : Machine) (c : Cpu) (s h lp : Nat) :
    emsMap { m with cpu := c } s h lp = ({ (emsMap m s h lp).1 with cpu := c }, (emsMap m s h lp).2) := by
  unfold emsMap
  by_cases hs : 3 < s
  · rw [if_pos hs, if_pos hs]
  · rw [if_neg hs, if_neg hs, emsLoadSlot_cpu m c 0xFFFF hs]
    cases m.ems.handles.lookup h with
    | none => rfl
    | some H =>
      dsimp only
      by_cases hlp : lp = 0xFFFF
      · rw [if_pos hlp, if_pos hlp]
        rfl
      · rw [if_neg hlp, if_neg hlp]
        cases H.pages[lp]? with
        | none => rfl
        | some pp =>
          have hload := emsLoadSlot_cpu m c pp hs
          dsimp only
          rw [hload]
          rfl

theorem emsLoadSlot_keeps (m : Machine) {s : Nat} (pp : Nat) (hs : ¬ 3 < s) :
    (emsLoadSlot m s pp).cpu = m.cpu ∧ (emsLoadSlot m s pp).ems.handles = m.ems.handles := by
  rw [emsLoadSlot, if_neg hs]
  exact ⟨rfl, rfl⟩

theorem emsMap_keeps (m : Machine) (s h lp : Nat) :
    (emsMap m s h lp).1.cpu = m.cpu ∧ (emsMap m s h lp).1.ems.handles = m.ems.handles := by
  unfold emsMap
  by_cases hs : 3 < s
  · rw [if_pos hs]
    exact ⟨rfl, rfl⟩
  · rw [if_neg hs]
    cases m.ems.handles.lookup h with
    | none => exact ⟨rfl, rfl⟩
    | some H =>
      dsimp only
      by_cases hlp : lp = 0xFFFF
      · rw [if_pos hlp]
        exact emsLoadSlot_keeps m 0xFFFF hs
      · rw [if_neg hlp]
        cases H.pages[lp]? with
        | none => exact ⟨rfl, rfl⟩
        | some pp => exact emsLoadSlot_keeps m pp hs

/-- Only the page frame is written. -/
theorem emsMap_off (m : Machine) (s h lp : Nat) :
    AgreesOff (Set.Ico EMS_FRAME_BASE (EMS_FRAME_BASE + 0x10000)) m.mem (emsMap m s h lp).1.mem := by
  have hload : ∀ pp, s ≤ 3 →
      AgreesOff (Set.Ico EMS_FRAME_BASE (EMS_FRAME_BASE + 0x10000)) m.mem (emsLoadSlot m s pp).mem := by
    intro pp hs
    rw [emsLoadSlot, if_neg (by omega)]
    dsimp only
    generalize (if pp ≠ 0xFFFF ∧ EMS_TOTAL_PAGES ≤ pp then 0xFFFF else pp) = page
    split_ifs with h₁ h₂
    · exact (blit_off _ _ _ _).mono fun x hx => ⟨(Nat.le_add_right _ _).trans hx.1, hx.2.trans_le (by
        simp only [EMS_PAGE_SIZE]
        omega)⟩
    · exact (blit_off _ _ _ _).mono fun x hx => ⟨(Nat.le_add_right _ _).trans hx.1, hx.2.trans_le (by
        simp only [EMS_PAGE_SIZE]
        omega)⟩
    · exact AgreesOff.refl _ _
  unfold emsMap
  by_cases hs : 3 < s
  · rw [if_pos hs]
    exact AgreesOff.refl _ _
  · rw [if_neg hs]
    cases m.ems.handles.lookup h with
    | none => exact AgreesOff.refl _ _
    | some H =>
      dsimp only
      by_cases hlp : lp = 0xFFFF
      · rw [if_pos hlp]
        exact hload 0xFFFF (by omega)
      · rw [if_neg hlp]
        cases H.pages[lp]? with
        | none => exact AgreesOff.refl _ _
        | some pp => exact hload pp (by omega)

/-- AH=44 for a pair is `ems_map`. -/
theorem call44_eq (m : Machine) {p lp : Nat} (hp : p < 256) (hlp : lp < 65536) :
    call44 m p lp = emsMap m p m.dx lp := by
  have hal : ((m.setR8l .eax p).setR16 .ebx lp).r8l .eax = p := by
    simp only [r8l, setR16, r32_setR32_of_ne _ _ (show Reg.eax ≠ .ebx by decide), setR8l, r32_setR32]
    omega
  have hbx : ((m.setR8l .eax p).setR16 .ebx lp).bx = lp := by
    rw [bx, r16_setR16, Nat.mod_eq_of_lt hlp]
  have hdx : ((m.setR8l .eax p).setR16 .ebx lp).dx = m.dx := by
    rw [dx, r16_setR16_of_ne _ _ (by decide), r16, setR8l, r32_setR32_of_ne _ _ (by decide)]
    rfl
  have hst := emsMap_status m p m.dx lp
  unfold call44 int67_44
  dsimp only
  rw [hal, hbx, hdx]
  have hcpu := emsMap_cpu m ((m.setR8l .eax p).setR16 .ebx lp).cpu p m.dx lp
  have hsame : ({ m with cpu := ((m.setR8l .eax p).setR16 .ebx lp).cpu } : Machine) =
      (m.setR8l .eax p).setR16 .ebx lp := rfl
  rw [hsame] at hcpu
  rw [hcpu, r8h_setR8h, Nat.mod_eq_of_lt hst]
  refine Prod.ext ?_ rfl
  have hkeep := (emsMap_keeps m p m.dx lp).1
  generalize emsMap m p m.dx lp = r at hkeep ⊢
  obtain ⟨m', st⟩ := r
  cases m'
  cases hkeep
  rfl

/-! ### One pair -/

/-- The body of AH=50's loop. -/
def mapEntry (al dx arr i : Nat) (m : Machine) : Machine × Nat :=
  let sec := readw m.mem (lin (arr + i * 4 + 2))
  if al = 1 ∧ (sec < EMS_FRAME_SEG ∨ EMS_FRAME_SEG + 0x1000 ≤ sec) then (m, 0x8B)
  else emsMap m (tableSlot al sec % 256) dx (readw m.mem (lin (arr + i * 4)))

theorem emsMapTable_upTo (al dx arr : Nat) : ∀ (n i : Nat) (m : Machine),
    emsMapTable al dx arr n i m = upTo (mapEntry al dx arr) n i m
  | 0, _, _ => rfl
  | n + 1, i, m => by
    rw [emsMapTable, upTo, mapEntry]
    dsimp only
    by_cases hout : al = 1 ∧ (readw m.mem (lin (arr + i * 4 + 2)) < EMS_FRAME_SEG ∨
        EMS_FRAME_SEG + 0x1000 ≤ readw m.mem (lin (arr + i * 4 + 2)))
    · rw [if_pos hout, if_pos hout]
      exact (if_pos (show (0x8B : Nat) ≠ 0 by decide)).symm
    · rw [if_neg hout, if_neg hout, emsMapTable_upTo al dx arr n (i + 1)]

theorem mapEntry_cpu (al dx arr i : Nat) (c : Cpu) (m : Machine) :
    mapEntry al dx arr i { m with cpu := c } =
      ({ (mapEntry al dx arr i m).1 with cpu := c }, (mapEntry al dx arr i m).2) := by
  unfold mapEntry
  dsimp only
  split_ifs with hout
  · rfl
  · exact emsMap_cpu m c _ dx _

theorem pairCall_keeps (al arr i : Nat) (m : Machine) :
    (pairCall al arr i m).1.cpu = m.cpu ∧ (pairCall al arr i m).1.ems.handles = m.ems.handles := by
  unfold pairCall
  cases hp : pairPage al (readw m.mem (lin (arr + i * 4 + 2))) with
  | none => exact ⟨rfl, rfl⟩
  | some p =>
    dsimp only
    rw [call44_eq m (pairPage_lt hp) (readw_lt m.mem (lin (arr + i * 4)))]
    exact emsMap_keeps m p m.dx _

theorem pairPage_segment {p : Nat} (hp : p < 4) : pairPage 1 (EMS_FRAME_SEG + p * 0x400) = some p := by
  have hall : ∀ q < 4, pairPage 1 (EMS_FRAME_SEG + q * 0x400) = some q := by decide
  exact hall p hp

theorem pairPage_none {sec : Nat} (h : ∀ p < 4, EMS_FRAME_SEG + p * 0x400 ≠ sec) : pairPage 1 sec = none := by
  rw [pairPage, if_pos rfl, List.find?_eq_none]
  intro p hp
  simpa using h p (List.mem_range.mp hp)

theorem pairPage_number {sec : Nat} (h : sec ≤ 3) : pairPage 0 sec = some sec := by
  rw [pairPage, if_neg (by decide), if_pos h]

theorem pairPage_over {sec : Nat} (h : 3 < sec) : pairPage 0 sec = none := by
  rw [pairPage, if_neg (by decide), if_neg (by omega)]

theorem emsMap_over {m : Machine} {s h lp : Nat} (hs : 3 < s) : emsMap m s h lp = (m, 0x8B) := by
  rw [emsMap, if_pos hs]

/-- With a slot and a handle, `ems_map` refuses nothing but a logical page. -/
theorem emsMap_slot {m : Machine} {s h lp : Nat} {H : EmsHandle} (hs : s ≤ 3)
    (hH : m.ems.handles.lookup h = some H) : (emsMap m s h lp).2 = 0 ∨ (emsMap m s h lp).2 = 0x8A := by
  rw [emsMap, if_neg (by omega), hH]
  dsimp only
  by_cases hlp : lp = 0xFFFF
  · rw [if_pos hlp]
    exact Or.inl rfl
  · rw [if_neg hlp]
    cases H.pages[lp]? with
    | none => exact Or.inr rfl
    | some pp => exact Or.inl rfl

/-- An exact second word goes to the page it denotes. -/
theorem mapEntry_exact {al arr i : Nat} {m : Machine} (hal : al ≤ 1)
    (hx : Exact al (readw m.mem (lin (arr + i * 4 + 2)))) :
    mapEntry al m.dx arr i m = pairCall al arr i m := by
  have hlp := readw_lt m.mem (lin (arr + i * 4))
  have hsec := readw_lt m.mem (lin (arr + i * 4 + 2))
  unfold mapEntry pairCall
  dsimp only
  generalize readw m.mem (lin (arr + i * 4)) = lp at hlp ⊢
  generalize readw m.mem (lin (arr + i * 4 + 2)) = sec at hx hsec ⊢
  rcases Nat.le_one_iff_eq_zero_or_eq_one.mp hal with rfl | rfl
  · rw [Exact, if_neg (by decide)] at hx
    rw [if_neg (by omega), tableSlot, if_neg (by decide)]
    by_cases hnum : sec ≤ 3
    · have hbyte : sec % 256 = sec := Nat.mod_eq_of_lt (by omega)
      rw [pairPage_number hnum, hbyte]
      exact (call44_eq m (by omega) hlp).symm
    · rw [pairPage_over (by omega), emsMap_over (by omega)]
  · rw [Exact, if_pos rfl] at hx
    simp only [EMS_FRAME_SEG] at hx
    by_cases hin : 0xE000 ≤ sec ∧ sec < 0xE000 + 0x1000
    · -- the segment of a slot
      have hmult := hx hin.1 hin.2
      obtain ⟨p, hp, rfl⟩ : ∃ p < 4, sec = EMS_FRAME_SEG + p * 0x400 :=
        ⟨(sec - 0xE000) / 0x400, by omega, by simp only [EMS_FRAME_SEG]; omega⟩
      have hslot : tableSlot 1 (EMS_FRAME_SEG + p * 0x400) % 256 = p := by
        rw [tableSlot, if_pos rfl]
        omega
      rw [if_neg (by omega), pairPage_segment hp, hslot]
      exact (call44_eq m (by omega) hlp).symm
    · rw [if_pos ⟨rfl, by simp only [EMS_FRAME_SEG]; omega⟩,
        pairPage_none fun p hp => by simp only [EMS_FRAME_SEG]; omega]

/-- Any other second word maps a page, or is refused for the logical page. -/
theorem mapEntry_inexact {al dx arr i : Nat} {m : Machine} {H : EmsHandle} (hal : al ≤ 1)
    (hH : m.ems.handles.lookup dx = some H)
    (hx : ¬ Exact al (readw m.mem (lin (arr + i * 4 + 2)))) :
    ((mapEntry al dx arr i m).2 = 0 ∨ (mapEntry al dx arr i m).2 = 0x8A) ∧
      (pairCall al arr i m).2 = 0x8B := by
  unfold mapEntry pairCall
  dsimp only
  generalize readw m.mem (lin (arr + i * 4)) = lp
  generalize readw m.mem (lin (arr + i * 4 + 2)) = sec at hx ⊢
  rcases Nat.le_one_iff_eq_zero_or_eq_one.mp hal with rfl | rfl
  · rw [Exact, if_neg (by decide)] at hx
    rw [if_neg (by omega), tableSlot, if_neg (by decide), pairPage_over (by omega)]
    exact ⟨emsMap_slot (by omega) hH, rfl⟩
  · rw [Exact, if_pos rfl] at hx
    simp only [EMS_FRAME_SEG, Classical.not_imp] at hx
    rw [if_neg (by simp only [EMS_FRAME_SEG]; omega), tableSlot, if_pos rfl,
      pairPage_none fun p hp => by simp only [EMS_FRAME_SEG]; omega]
    refine ⟨emsMap_slot ?_ hH, rfl⟩
    simp only [EMS_FRAME_SEG]
    omega

/-! ### The whole array -/

theorem mapPairs_keeps (m : Machine) (n : Nat) :
    (mapPairs m n).1.cpu = m.cpu ∧ (mapPairs m n).1.ems.handles = m.ems.handles :=
  upTo_invariant (P := fun q => q.cpu = m.cpu ∧ q.ems.handles = m.ems.handles)
    (fun i q hq => ⟨(pairCall_keeps _ _ i q).1.trans hq.1, (pairCall_keeps _ _ i q).2.trans hq.2⟩) n 0
    ⟨rfl, rfl⟩

/-- The array is read as it was at the call unless it lies in the page frame. -/
theorem mapPairs_off (m : Machine) (n : Nat) :
    AgreesOff (Set.Ico EMS_FRAME_BASE (EMS_FRAME_BASE + 0x10000)) m.mem (mapPairs m n).1.mem := by
  refine upTo_invariant (P := fun q : Machine =>
    AgreesOff (Set.Ico EMS_FRAME_BASE (EMS_FRAME_BASE + 0x10000)) m.mem q.mem) (fun i q hq => hq.trans ?_) n 0
    (AgreesOff.refl _ _)
  unfold pairCall
  cases hp : pairPage (m.r8l .eax) (readw q.mem (lin (m.segPhys .ds + m.si + i * 4 + 2))) with
  | none => exact AgreesOff.refl _ _
  | some p =>
    dsimp only
    rw [call44_eq q (pairPage_lt hp) (readw_lt q.mem _)]
    exact emsMap_off q p q.dx _

theorem dx_of_cpu {m m' : Machine} (h : m'.cpu = m.cpu) : m'.dx = m.dx := by
  simp only [dx, r16, r32, h]

/-- AH=50 is the loop over the entries. -/
theorem int67_50_eq {m : Machine} {H : EmsHandle} (hH : m.ems.handles.lookup m.dx = some H)
    (hal : m.r8l .eax ≤ 1) {n : Nat} (hn : n < 65536) :
    int67_50 (m.setR16 .ecx n) =
      ({ (upTo (mapEntry (m.r8l .eax) m.dx (m.segPhys .ds + m.si)) n 0 m).1 with
          cpu := (m.setR16 .ecx n).cpu } : Machine).setR8h .eax
        (upTo (mapEntry (m.r8l .eax) m.dx (m.segPhys .ds + m.si)) n 0 m).2 := by
  have hregs : ∀ r, r ≠ Reg.ecx → (m.setR16 .ecx n).r32 r = m.r32 r := fun r hr =>
    r32_setR32_of_ne _ _ hr
  have hdx : (m.setR16 .ecx n).dx = m.dx := by
    simp only [dx, r16, hregs .edx (by decide)]
  have hsi : (m.setR16 .ecx n).si = m.si := by
    simp only [si, r16, hregs .esi (by decide)]
  have heax : (m.setR16 .ecx n).r8l .eax = m.r8l .eax := by
    simp only [r8l, hregs .eax (by decide)]
  have hcx : (m.setR16 .ecx n).cx = n := by
    rw [cx, r16_setR16, Nat.mod_eq_of_lt hn]
  have hseg : (m.setR16 .ecx n).segPhys .ds = m.segPhys .ds := rfl
  have hems : (m.setR16 .ecx n).ems = m.ems := rfl
  have hcpu : upTo (mapEntry (m.r8l .eax) m.dx (m.segPhys .ds + m.si)) n 0 (m.setR16 .ecx n) = _ :=
    @upTo_commutes _ _ (fun q : Machine => { q with cpu := (m.setR16 .ecx n).cpu })
      (fun i q => mapEntry_cpu _ _ _ i _ q) n 0 m
  unfold int67_50
  rw [hems, hdx, hH, heax, hsi, hseg, hcx]
  dsimp only
  rw [if_neg (by omega), emsMapTable_upTo, hcpu]

/-- The loops agree as long as the pairs are exact. -/
theorem upTo_exact {m : Machine} (hal : m.r8l .eax ≤ 1) {n : Nat} (hx : ∀ i < n, ExactAt m i) :
    upTo (mapEntry (m.r8l .eax) m.dx (m.segPhys .ds + m.si)) n 0 m = mapPairs m n := by
  refine upTo_eq fun i hi hst => ?_
  have hdx := dx_of_cpu (mapPairs_keeps m i).1
  have hentry := mapEntry_exact (i := i) (m := (mapPairs m i).1) hal (hx i hi hst)
  rw [hdx] at hentry
  exact hentry

/-- AH=50 has the effect and the status of one AH=44 for each pair, whatever the count up to `n`, exactly if
    every pair that is reached is exact. -/
theorem multiMap_iff {m : Machine} {H : EmsHandle} (hH : m.ems.handles.lookup m.dx = some H)
    (hal : m.r8l .eax ≤ 1) {n : Nat} (hn : n < 65536) :
    (∀ k ≤ n, MapsAsCalls m k) ↔ ∀ i < n, ExactAt m i := by
  constructor
  · intro h i
    induction i using Nat.strong_induction_on with
    | _ i ih =>
      intro hi hst
      by_contra hx
      -- both loops come to pair `i`, and answer it differently
      have hall := upTo_exact hal fun j hj => ih j hj (hj.trans hi)
      have hhandle : (mapPairs m i).1.ems.handles.lookup m.dx = some H := by
        rw [(mapPairs_keeps m i).2, hH]
      obtain ⟨hcode, hcalls⟩ := mapEntry_inexact (i := i) (m := (mapPairs m i).1) hal hhandle hx
      have hcalled : mapPairs m (i + 1) =
          pairCall (m.r8l .eax) (m.segPhys .ds + m.si) i (mapPairs m i).1 := by
        rw [mapPairs, upTo_succ, ← mapPairs, if_neg (not_not.mpr hst)]
      have hsame := h (i + 1) hi
      unfold MapsAsCalls at hsame
      dsimp only at hsame
      rw [int67_50_eq hH hal (by omega), upTo_succ, hall, if_neg (not_not.mpr hst), hcalled] at hsame
      have hah := congrArg (fun q : Machine => q.r8h .eax) hsame
      dsimp only at hah
      rw [r8h_setR8h, r8h_setR8h, hcalls] at hah
      rcases hcode with h₀ | h₀
      · rw [h₀] at hah
        exact absurd hah (by decide)
      · rw [h₀] at hah
        exact absurd hah (by decide)
  · intro hx k hk
    unfold MapsAsCalls
    dsimp only
    rw [int67_50_eq hH hal (by omega), upTo_exact hal fun i hi => hx i (hi.trans_le hk)]

/-- A number that is no handle is refused before the array is read. -/
theorem int67_50_noHandle {m : Machine} (h : m.ems.handles.lookup m.dx = none) :
    int67_50 m = m.setR8h .eax 0x83 := by
  rw [int67_50, h]

/-! ### Two arrays -/

/-- Handle 1 with two pages, and an array of two pairs at DS:SI. -/
def paired (lp₀ sec₀ lp₁ sec₁ : Nat) : Machine :=
  { int67_alloc { bootMachine with cpu := emsCpu 2 0 } false with
    cpu := emsCpu 0 1
    mem := writew (writew (writew (writew bootMachine.mem 0 lp₀) 2 sec₀) 4 lp₁) 6 sec₁ }

theorem paired_handle (lp₀ sec₀ lp₁ sec₁ : Nat) :
    ∃ H, (paired lp₀ sec₀ lp₁ sec₁).ems.handles.lookup (paired lp₀ sec₀ lp₁ sec₁).dx = some H := by
  have hsome : ((int67_alloc { bootMachine with cpu := emsCpu 2 0 } false).ems.handles.lookup 1).isSome = true := by
    decide +kernel
  have hems : (paired lp₀ sec₀ lp₁ sec₁).ems =
      (int67_alloc { bootMachine with cpu := emsCpu 2 0 } false).ems := by
    simp only [paired]
  have hdx : (paired lp₀ sec₀ lp₁ sec₁).dx = ({ bootMachine with cpu := emsCpu 0 1 } : Machine).dx :=
    dx_of_cpu rfl
  have hone : ({ bootMachine with cpu := emsCpu 0 1 } : Machine).dx = 1 := by
    decide +kernel
  rw [hems, hdx, hone]
  exact Option.isSome_iff_exists.mp hsome

/-- Pages 0 and 1 go to slots 3 and 0. -/
theorem multiMap_iff_paired : MapsAsCalls (paired 0 3 1 0) 2 := by
  obtain ⟨H, hH⟩ := paired_handle 0 3 1 0
  refine (multiMap_iff hH (by decide +kernel) (show 2 < 65536 by omega)).mpr (fun i hi _ => ?_) 2 le_rfl
  have hsec : ∀ i < 2, readw (mapPairs (paired 0 3 1 0) i).1.mem
      (lin ((paired 0 3 1 0).segPhys .ds + (paired 0 3 1 0).si + i * 4 + 2)) < 0x100 := by
    decide +kernel
  have hform : (paired 0 3 1 0).r8l .eax = 0 := by
    decide +kernel
  rw [hform, Exact, if_neg (by decide)]
  exact Or.inl (hsec i hi)

/-- Physical page 100h is taken for slot 0. -/
theorem multiMap_cut : ¬ MapsAsCalls (paired 0 0x100 0 0) 1 := by
  intro h
  have hah := congrArg (fun q : Machine => q.r8h .eax) h
  have hcode : (int67_50 ((paired 0 0x100 0 0).setR16 .ecx 1)).r8h .eax = 0 := by
    decide +kernel
  have hcalls : (mapPairs (paired 0 0x100 0 0) 1).2 = 0x8B := by
    decide +kernel
  dsimp only at hah
  rw [hcode, r8h_setR8h, hcalls] at hah
  exact absurd hah (by decide)

end Dosiz.Ems
