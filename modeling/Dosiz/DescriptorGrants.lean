/-
  Dosiz/DescriptorGrants.lean
  ===========================
  **The descriptors the DPMI host hands out** (INT 31h AX=0000, 0002, 000A, 000D and 0100 of
  `bridge.cc`).

  Each of the five functions fills a free slot of the LDT and answers a selector for it; four
  build the access byte and the selector with `s_client_cpl`.  `alias_iff`: the alias of
  AX=000A is the source's segment where the limit of the source counts bytes and it does not
  expand down.  `grants_right_iff`: a slot is handed out at the ring of the client that asks
  unless AX=000D hands it out, or `s_client_cpl` is left from a ring-3 client.
-/
import Dosiz.ChildExit
import Dosiz.DescriptorFields

namespace Dosiz

open ByteMemory Machine Mcb

/-! ### What a slot is filled with -/

theorem descAt_writeLdt (mem : Mem) (idx base limit access : Nat) (big : Bool) :
    DescAt (writeLdtDescriptor mem idx base limit access big) (LDT_BASE + idx * 8) base limit access
      big := by
  intro k hk
  rw [List.getD_eq_getElem _ 0 (by exact hk)]
  exact readb_storeBytes mem (LDT_BASE + idx * 8) (descriptorBytes base limit access big) hk

theorem DescAt.descLimit {mem : Mem} {p base limit access : Nat} {big : Bool}
    (h : DescAt mem p base limit access big) : Dosiz.descLimit mem p = limit % 1048576 := by
  have h₀ := h 0 (by decide)
  have h₁ := h 1 (by decide)
  have h₆ := h 6 (by decide)
  simp only [descriptorBytes, List.getD_cons_succ, List.getD_cons_zero, Nat.add_zero] at h₀ h₁ h₆
  cases big
  · simp only [Bool.false_eq_true, if_false] at h₆
    simp only [Dosiz.descLimit, h₀, h₁, h₆]
    omega
  · simp only [if_true] at h₆
    simp only [Dosiz.descLimit, h₀, h₁, h₆]
    omega

/-- A descriptor as the host writes them counts its limit in bytes. -/
theorem DescAt.getLimit {mem : Mem} {p base limit access : Nat} {big : Bool}
    (h : DescAt mem p base limit access big) : Dosiz.getLimit mem p = limit % 1048576 := by
  have h₆ := h 6 (by decide)
  simp only [descriptorBytes, List.getD_cons_succ, List.getD_cons_zero] at h₆
  have hbytes : ¬ readb mem (p + 6) / 128 = 1 := by
    rw [h₆]
    cases big
    · simp only [Bool.false_eq_true, if_false]
      omega
    · simp only [if_true]
      omega
  rw [Dosiz.getLimit, if_neg hbytes, h.descLimit]

/-- The slots that are taken in `r` and were not in `m` have been filled with this descriptor. -/
def Fills (m r : Machine) (base limit access : Nat) : Prop :=
  ∀ i, m.ldtInUse i = false → r.ldtInUse i = true →
    DescAt r.mem (LDT_BASE + i * 8) base limit access false

section Fills

variable {m r : Machine} {base limit access : Nat}

theorem fills_installLdt (m : Machine) (idx base limit access : Nat) :
    Fills m (installLdt m idx base limit access) base limit access := by
  intro i hfree hused
  by_cases hi : i = idx
  · subst hi
    exact descAt_writeLdt m.mem i base limit access false
  · have hsame : (installLdt m idx base limit access).ldtInUse i = m.ldtInUse i :=
      Function.update_of_ne hi _ _
    rw [hsame, hfree] at hused
    cases hused

/-- The loop of AX=0000. -/
theorem fills_installRun (m : Machine) (start base limit access : Nat) : ∀ count,
    Fills m ((List.range count).foldl (fun r i => installLdt r (start + i) base limit access) m) base limit
      access
  | 0 => by
    intro i hfree hused
    rw [List.range_zero, List.foldl_nil, hfree] at hused
    cases hused
  | count + 1 => by
    have ih := fills_installRun m start base limit access count
    rw [List.range_succ, List.foldl_append, List.foldl_cons, List.foldl_nil]
    generalize (List.range count).foldl _ m = q at ih ⊢
    intro i hfree hused
    by_cases hi : i = start + count
    · subst hi
      exact descAt_writeLdt q.mem (start + count) base limit access false
    · have hsame : (installLdt q (start + count) base limit access).ldtInUse i = q.ldtInUse i :=
        Function.update_of_ne hi _ _
      rw [hsame] at hused
      refine (ih i hfree hused).frame (writeLdtDescriptor_off q.mem (start + count) base limit access false)
        fun k hk hx => ?_
      have h₁ := hx.1
      have h₂ := hx.2
      omega

end Fills

/-! ### The selector of a client -/

section Selector

variable {m : Machine}

theorem clientSelector_low (hcpl : m.clientCpl < 4) (idx : Nat) :
    clientSelector m idx % 8 = 4 + m.clientCpl := by
  have h₁ : (idx * 8 ||| 4 ||| m.clientCpl) % 2 ^ 3 = 4 + m.clientCpl := by
    rw [Nat.or_mod_two_pow, Nat.or_mod_two_pow]
    have h₂ : idx * 8 % 2 ^ 3 = 0 := by omega
    rw [h₂]
    obtain h | h | h | h : m.clientCpl = 0 ∨ m.clientCpl = 1 ∨ m.clientCpl = 2 ∨ m.clientCpl = 3 := by omega
    all_goals
      rw [h]
      rfl
  exact h₁

theorem clientSelector_ldt (hcpl : m.clientCpl < 4) (idx : Nat) : clientSelector m idx / 4 % 2 = 1 := by
  have h := clientSelector_low hcpl idx
  omega

theorem descAddr_clientSelector (hcpl : m.clientCpl < 4) (idx : Nat) :
    descAddr (clientSelector m idx) = LDT_BASE + idx * 8 := by
  rw [descAddr_ldt (clientSelector_ldt hcpl idx), clientSelector_slot hcpl]

/-- `s_client_cpl` is 0 or 3. -/
def CplOk (m : Machine) : Prop := m.clientCpl = 0 ∨ m.clientCpl = 3

theorem CplOk.lt (h : CplOk m) : m.clientCpl < 4 := by
  rcases h with h | h <;> rw [h] <;> decide

theorem clientDataAccess_eq (h : CplOk m) : clientDataAccess m = 0x92 + m.clientCpl * 32 := by
  rcases h with h | h <;> rw [clientDataAccess, h] <;> rfl

end Selector

/-! ### AX=000A -/

/-- The access byte of a present data segment that can be written. -/
def writableData (access : Nat) : Bool :=
  access / 128 = 1 && access / 16 % 2 = 1 && access / 8 % 2 = 0 && access / 2 % 2 = 1

/-- E of a data segment. -/
def expandsDown (mem : Mem) (p : Nat) : Bool :=
  readb mem (p + 5) / 8 % 2 = 0 && readb mem (p + 5) / 4 % 2 = 1

/-- G of the descriptor at `p`. -/
def descPages (mem : Mem) (p : Nat) : Bool := readb mem (p + 6) / 128 = 1

/-- The offset `o` is inside the segment of the descriptor at `p`. -/
def InSegment (mem : Mem) (p o : Nat) : Prop :=
  if expandsDown mem p then getLimit mem p < o ∧ o ≤ (if descBig mem p then 0xFFFFFFFF else 0xFFFF)
  else o ≤ getLimit mem p

/-- The selector in AX is a writable data alias of the segment BX was. -/
structure AliasOf (m r : Machine) : Prop where
  data : writableData (readb r.mem (descAddr r.ax + 5)) = true
  base : descBase r.mem (descAddr r.ax) = descBase m.mem (bxDesc m)
  limit : getLimit r.mem (descAddr r.ax) = getLimit m.mem (bxDesc m)
  offsets : ∀ o, InSegment r.mem (descAddr r.ax) o ↔ InSegment m.mem (bxDesc m) o

theorem descLimit_lt (mem : Mem) (p : Nat) : descLimit mem p < 1048576 := by
  have h₀ := readb_lt mem p
  have h₁ := readb_lt mem (p + 1)
  simp only [descLimit]
  omega

/-- The descriptor AX=000A has made. -/
theorem alias_descAt {m r : Machine} (hcpl : CplOk m) (h : int31_000A m = some (r, false)) :
    DescAt r.mem (descAddr r.ax) (descBase m.mem (bxDesc m)) (descLimit m.mem (bxDesc m))
      (clientDataAccess m) false := by
  unfold int31_000A at h
  dsimp only at h
  split_ifs at h with hvalid hidx
  · cases h
  · cases h
  · cases h
    have hfirst := ldtFindRun_firstFit m (show 0 < 1 by decide)
    have hax : ((installLdt m (ldtFindRun m 1) (descBase m.mem (bxDesc m)) (descLimit m.mem (bxDesc m))
        (clientDataAccess m)).setR16 .eax (clientSelector m (ldtFindRun m 1))).ax =
          clientSelector m (ldtFindRun m 1) :=
      r16_clientSelector hcpl.lt (hfirst.lt hidx (le_refl 1)) .eax
    rw [hax, descAddr_clientSelector hcpl.lt]
    exact descAt_writeLdt m.mem _ _ _ _ false

/-- **The alias of a segment.** -/
theorem alias_iff {m r : Machine} (hcpl : CplOk m) (h : int31_000A m = some (r, false)) :
    AliasOf m r ↔ descPages m.mem (bxDesc m) = false ∧ expandsDown m.mem (bxDesc m) = false := by
  have hd := alias_descAt hcpl h
  have hlt := descLimit_lt m.mem (bxDesc m)
  have haccess : clientDataAccess m < 256 := by
    rw [clientDataAccess_eq hcpl]
    rcases hcpl with h | h <;> rw [h] <;> decide
  have hlimit : getLimit r.mem (descAddr r.ax) = descLimit m.mem (bxDesc m) := by
    rw [hd.getLimit, Nat.mod_eq_of_lt hlt]
  have hup : expandsDown r.mem (descAddr r.ax) = false := by
    rw [expandsDown, hd.access haccess, clientDataAccess_eq hcpl]
    rcases hcpl with h | h <;> rw [h] <;> rfl
  have hin : ∀ o, InSegment r.mem (descAddr r.ax) o ↔ o ≤ descLimit m.mem (bxDesc m) := fun o => by
    rw [InSegment, hup, hlimit]
    exact Iff.rfl
  have hsource : descPages m.mem (bxDesc m) = false → getLimit m.mem (bxDesc m) = descLimit m.mem (bxDesc m) := by
    intro hg
    rw [getLimit, if_neg (by simpa [descPages] using hg)]
  constructor
  · intro ha
    have hg : descPages m.mem (bxDesc m) = false := by
      by_contra hg
      have hpages : getLimit m.mem (bxDesc m) = descLimit m.mem (bxDesc m) * 4096 + 4095 := by
        rw [getLimit, if_pos (by simpa [descPages] using hg)]
      have hsame := ha.limit
      rw [hlimit, hpages] at hsame
      omega
    refine ⟨hg, ?_⟩
    by_contra hdown
    rw [Bool.not_eq_false] at hdown
    -- offset 0 is in the alias, and below every offset of a segment that expands down
    have hzero := (ha.offsets 0).mp ((hin 0).mpr (Nat.zero_le _))
    rw [InSegment, if_pos hdown] at hzero
    exact absurd hzero.1 (Nat.not_lt_zero _)
  · rintro ⟨hg, hdown⟩
    refine ⟨?_, hd.base (descBase_lt _ _), ?_, fun o => ?_⟩
    · rw [hd.access haccess, clientDataAccess_eq hcpl]
      rcases hcpl with h | h <;> rw [h] <;> rfl
    · rw [hlimit, hsource hg]
    · rw [hin, InSegment, hdown, hsource hg]
      exact Iff.rfl

/-- BX is the GDT selector 0x10, a segment of base 0x20000 with this limit field and these flags. -/
def aliasing (limit flags : Nat) : Machine :=
  { loadRegs bootMachine 0x10 0 0 with
    mem := storeBytes bootMachine.mem (GDT_BASE + 0x10)
      [limit % 256, limit / 256 % 256, 0, 0, 2, 0x92, limit / 65536 % 16 + flags * 16, 0] }

theorem aliasing_bx (limit flags : Nat) : (aliasing limit flags).bx = 0x10 :=
  (loadRegs_regs bootMachine 0x10 0 0).1

theorem alias_iff_bytes : ∃ r, int31_000A (aliasing 0xFFFF 0) = some (r, false) ∧
    AliasOf (aliasing 0xFFFF 0) r := by
  obtain ⟨r, hr⟩ : ∃ r, int31_000A (aliasing 0xFFFF 0) = some (r, false) := by
    unfold int31_000A
    dsimp only
    rw [aliasing_bx, if_neg (by decide), if_neg (by decide)]
    exact ⟨_, rfl⟩
  refine ⟨r, hr, (alias_iff (Or.inl rfl) hr).mpr ⟨?_, ?_⟩⟩
  · rw [bxDesc, aliasing_bx]
    decide +kernel
  · rw [bxDesc, aliasing_bx]
    decide +kernel

/-- The alias of a flat 4 GB segment ends at 1 MB. -/
theorem alias_loses_pages : ∃ r, int31_000A (aliasing 0xFFFFF 8) = some (r, false) ∧
    getLimit (aliasing 0xFFFFF 8).mem (bxDesc (aliasing 0xFFFFF 8)) = 0xFFFFFFFF ∧
    getLimit r.mem (descAddr r.ax) = 0xFFFFF ∧ ¬ AliasOf (aliasing 0xFFFFF 8) r := by
  obtain ⟨r, hr⟩ : ∃ r, int31_000A (aliasing 0xFFFFF 8) = some (r, false) := by
    unfold int31_000A
    dsimp only
    rw [aliasing_bx, if_neg (by decide), if_neg (by decide)]
    exact ⟨_, rfl⟩
  have hsource : getLimit (aliasing 0xFFFFF 8).mem (bxDesc (aliasing 0xFFFFF 8)) = 0xFFFFFFFF := by
    rw [bxDesc, aliasing_bx]
    decide +kernel
  have hfield : descLimit (aliasing 0xFFFFF 8).mem (bxDesc (aliasing 0xFFFFF 8)) = 0xFFFFF := by
    rw [bxDesc, aliasing_bx]
    decide +kernel
  have halias : getLimit r.mem (descAddr r.ax) = 0xFFFFF := by
    rw [(alias_descAt (Or.inl rfl) hr).getLimit, hfield]
  refine ⟨r, hr, hsource, halias, fun ha => ?_⟩
  have hsame := ha.limit
  rw [halias, hsource] at hsame
  exact absurd hsame (by decide)

/-! ### The ring of what is handed out -/

/-- The register of the selector a call answers or is given. -/
def LdtCall.selectorReg : LdtCall → Reg
  | .ax000D => .ebx
  | .ax0100 => .edx
  | _ => .eax

/-- The selector of slot `i`, with the table and the ring of the selector of the call. -/
def handedSelector (c : LdtCall) (r : Machine) (i : Nat) : Nat := i * 8 + r.r16 c.selectorReg % 8

/-- Slot `i` has a descriptor of a client at ring `ring`, who can load its selector into DS. -/
structure AtRing (ring : Nat) (c : LdtCall) (r : Machine) (i : Nat) : Prop where
  data : writableData (readb r.mem (LDT_BASE + i * 8 + 5)) = true
  dpl : readb r.mem (LDT_BASE + i * 8 + 5) / 32 % 4 = ring
  rpl : handedSelector c r i % 4 = ring
  desc : descAddr (handedSelector c r i) = LDT_BASE + i * 8
  loads : accessAllowed .ds ring (handedSelector c r i) (readb r.mem (LDT_BASE + i * 8 + 5)) = true

section Handed

variable {eng : Engine} {m r : Machine} {c : LdtCall} {i : Nat}

theorem mcbAllocate_inUse {need : Nat} {a : Machine × Nat × Nat} (h : mcbAllocate m need = some a) :
    a.1.ldtInUse = m.ldtInUse ∧ a.1.clientCpl = m.clientCpl := by
  have hview := (mcbAllocate_frame h).1
  exact ⟨congrArg LdtView.inUse hview, congrArg LdtView.cpl hview⟩

/-- A call that takes slots with the client's access byte, and answers them in `g`. -/
structure TakesFor (m r : Machine) (g : Reg) : Prop where
  fills : ∃ base limit, Fills m r base limit (clientDataAccess m)
  answer : r.r16 g % 8 = 4 + m.clientCpl

theorem clientSelector_answer (hcpl : CplOk m) (r : Machine) (g : Reg) (idx : Nat) :
    (r.setR16 g (clientSelector m idx)).r16 g % 8 = 4 + m.clientCpl := by
  have hlow := clientSelector_low hcpl.lt idx
  rw [r16_setR16]
  omega

theorem int31_0000_takes (hcpl : CplOk m) (h : int31_0000 m = some (r, false)) : TakesFor m r .eax := by
  unfold int31_0000 at h
  dsimp only at h
  split_ifs at h with hcount hstart
  · cases h
  · cases h
  · cases h
    exact ⟨⟨0, 0xFFFF, fills_installRun m _ 0 0xFFFF (clientDataAccess m) m.cx⟩,
      clientSelector_answer hcpl _ .eax _⟩

theorem int31_0002_takes (hcpl : CplOk m) (hmiss : m.seg2descCache m.bx = 0)
    (h : int31_0002 m = some (r, false)) : TakesFor m r .eax := by
  unfold int31_0002 at h
  dsimp only at h
  rw [if_neg (not_not.mpr hmiss)] at h
  split_ifs at h with hidx
  · cases h
  · cases h
    exact ⟨⟨m.bx * 16, 0xFFFF, fills_installLdt m _ (m.bx * 16) 0xFFFF (clientDataAccess m)⟩,
      clientSelector_answer hcpl _ .eax _⟩

theorem int31_000A_takes (hcpl : CplOk m) (h : int31_000A m = some (r, false)) : TakesFor m r .eax := by
  unfold int31_000A at h
  dsimp only at h
  split_ifs at h with hvalid hidx
  · cases h
  · cases h
  · cases h
    exact ⟨⟨_, _, fills_installLdt m _ _ _ (clientDataAccess m)⟩, clientSelector_answer hcpl _ .eax _⟩

theorem int31_0100_takes (hcpl : CplOk m) (h : int31_0100 m = some (r, false)) : TakesFor m r .edx := by
  unfold int31_0100 at h
  split_ifs at h with hbx
  · cases h
  · rcases halloc : mcbAllocate m m.bx with _ | ⟨a, seg, largest⟩
    · rw [halloc] at h
      cases h
    · rw [halloc] at h
      obtain ⟨huse, hring⟩ := mcbAllocate_inUse halloc
      dsimp only at h huse hring
      split_ifs at h with hseg hidx
      · cases h
      · cases h
      · cases h
        have hcpl' : CplOk a := by
          rw [CplOk, hring]
          exact hcpl
        have haccess : clientDataAccess m = clientDataAccess a := by
          rw [clientDataAccess, ← hring, clientDataAccess]
        have hfills : ∀ i, a.ldtInUse i = false → _ := fills_installLdt a (ldtFindRun a 1) (seg * 16)
          (lin (a.bx * 16 + 0xFFFFFFFF)) (clientDataAccess a)
        refine ⟨⟨seg * 16, lin (a.bx * 16 + 0xFFFFFFFF), fun i hfree hused => ?_⟩, ?_⟩
        · rw [haccess]
          exact hfills i (by rw [huse, hfree]) hused
        · rw [← hring]
          show (Machine.setR16 _ .edx (clientSelector a (ldtFindRun a 1))).r16 .edx % 8 = _
          exact clientSelector_answer hcpl' _ .edx (ldtFindRun a 1)

/-- The slots handed out by the functions that use `s_client_cpl`. -/
theorem handsOut_client (hcpl : CplOk m) (hc : c ≠ .ax000D) (h : c.serve eng m = some (r, false))
    (hi : i ∈ handsOut c m r false) : readb r.mem (LDT_BASE + i * 8 + 5) = clientDataAccess m ∧
      r.r16 c.selectorReg % 8 = 4 + m.clientCpl := by
  have haccess : clientDataAccess m < 256 := by
    rw [clientDataAccess_eq hcpl]
    rcases hcpl with h | h <;> rw [h] <;> decide
  obtain ⟨-, -, hfree, hused⟩ := (serve_effect hcpl.lt h).handsOut_free hcpl.lt hi
  have htakes : TakesFor m r c.selectorReg := by
    cases c with
    | ax0000 => exact int31_0000_takes hcpl h
    | ax0002 =>
      by_cases hmiss : m.seg2descCache m.bx = 0
      · exact int31_0002_takes hcpl hmiss h
      · simp only [handsOut, Bool.false_eq_true, if_false, if_neg hmiss] at hi
        exact absurd hi (Set.notMem_empty i)
    | ax000A => exact int31_000A_takes hcpl h
    | ax000D => exact absurd rfl hc
    | ax0100 => exact int31_0100_takes hcpl h
    | ax0001 | ax0007 | ax000C | ax0101 | ax0102 => exact absurd hi (Set.notMem_empty i)
  obtain ⟨⟨base, limit, hfills⟩, hanswer⟩ := htakes
  exact ⟨(hfills i hfree hused).access haccess, hanswer⟩

/-- The slot AX=000D hands out has an access byte of ring 0. -/
theorem handsOut_specific (h : int31_000D m = some (r, false)) (hi : i ∈ handsOut .ax000D m r false) :
    readb r.mem (LDT_BASE + i * 8 + 5) = 0x92 ∧ r.bx = m.bx ∧ m.bx / 4 % 2 = 1 := by
  obtain rfl : i = m.bx / 8 := hi
  unfold int31_000D at h
  dsimp only at h
  split_ifs at h with hti hslot
  · cases h
  · cases h
  · cases h
    refine ⟨(descAt_writeLdt m.mem (m.bx / 8) 0 0 0x92 false).access (by decide), rfl, ?_⟩
    omega

/-- A client at ring `ring` can load a data selector of its own ring into DS. -/
theorem allowed_ds {ring sel : Nat} (hring : ring = 0 ∨ ring = 3) (hsel : sel % 4 = ring) :
    accessAllowed .ds ring sel (0x92 + ring * 32) = true := by
  unfold accessAllowed
  rw [hsel]
  rcases hring with h | h <;> subst h <;> rfl

/-- **One call**: a slot is handed out at the ring of the client where that is `s_client_cpl`; AX=000D
    hands it out at ring 0, with the RPL it is given. -/
theorem atRing_iff (hcpl : CplOk m) {ring : Nat} (hring : ring = 0 ∨ ring = 3)
    (h : c.serve eng m = some (r, false)) (hi : i ∈ handsOut c m r false) : AtRing ring c r i ↔
      if c = .ax000D then ring = 0 ∧ m.bx % 4 = 0 else m.clientCpl = ring := by
  have hdesc : handedSelector c r i / 4 % 2 = 1 → descAddr (handedSelector c r i) = LDT_BASE + i * 8 := by
    intro hti
    rw [descAddr_ldt hti, handedSelector]
    omega
  split_ifs with hc
  · subst hc
    obtain ⟨haccess, hbx, hti⟩ := handsOut_specific h hi
    have hsel : handedSelector .ax000D r i = i * 8 + m.bx % 8 := by
      exact congrArg (fun v => i * 8 + v % 8) hbx
    constructor
    · intro ha
      have hdpl := ha.dpl
      have hrpl := ha.rpl
      rw [haccess] at hdpl
      rw [hsel] at hrpl
      omega
    · rintro ⟨rfl, hrpl⟩
      refine ⟨by rw [haccess]; rfl, by rw [haccess], by rw [hsel]; omega, hdesc (by rw [hsel]; omega), ?_⟩
      rw [haccess]
      exact allowed_ds (Or.inl rfl) (by rw [hsel]; omega)
  · obtain ⟨haccess, hanswer⟩ := handsOut_client hcpl hc h hi
    rw [clientDataAccess_eq hcpl] at haccess
    have hsel : handedSelector c r i = i * 8 + (4 + m.clientCpl) := by
      rw [handedSelector, hanswer]
    constructor
    · intro ha
      have hrpl := ha.rpl
      rw [hsel] at hrpl
      rcases hcpl with hc | hc <;> rw [hc] at hrpl ⊢ <;> omega
    · rintro rfl
      have hrpl : (i * 8 + (4 + m.clientCpl)) % 4 = m.clientCpl := by
        rcases hring with hc | hc <;> rw [hc] <;> omega
      refine ⟨?_, ?_, by rw [hsel, hrpl], hdesc (by rw [hsel]; rcases hring with hc | hc <;> omega), ?_⟩
      · rw [haccess]
        rcases hring with hc | hc <;> rw [hc] <;> rfl
      · rw [haccess]
        rcases hring with hc | hc <;> rw [hc]
      · rw [haccess]
        exact allowed_ds hring (by rw [hsel, hrpl])

end Handed

/-! ### Runs of clients -/

namespace Grants

open Nesting Transition

/-- The levels of a program tree, with the ring of the DPMI client in each process (`none` before
    its entry), innermost first, and whether any client has entered at ring 3. -/
structure Clients where
  st : State
  rings : List (Option Nat)
  ring3Seen : Bool

/-- A first program, in real mode. -/
def Clients.start (m : Machine) : Clients := ⟨⟨m, [], false⟩, [none], false⟩

/-- An entry is the innermost process's client; AH=4B adds a process, its end takes it away. -/
def nextRings (rings : List (Option Nat)) (s : State) : Event → State → List (Option Nat)
  | .dpmiEntry, _ => some (if goesRing3 s.m then 3 else 0) :: rings.tail
  | .exec _, t => if t.levels.length = s.levels.length then rings else none :: rings
  | .unwind, _ => if s.levels.head?.any Level.isExec then rings.tail else rings
  | _, _ => rings

/-- The event is an entry at ring 3. -/
def entersRing3 (m : Machine) : Event → Bool
  | .dpmiEntry => goesRing3 m
  | _ => false

def clientsStep (eng : Engine) (s : Clients) (e : Event) (t : Clients) : Prop :=
  step eng s.st e t.st ∧ t.rings = nextRings s.rings s.st e t.st ∧
    t.ring3Seen = (s.ring3Seen || entersRing3 s.st.m e)

/-- `s_client_cpl` is 3 from the first ring-3 client on. -/
structure CplHistory (s : Clients) : Prop where
  cpl : s.st.m.clientCpl = if s.ring3Seen then 3 else 0
  ring : ∀ r, some r ∈ s.rings → r = 0 ∨ (r = 3 ∧ s.ring3Seen = true)

section Run

variable {eng : Engine} {s t : Clients}

/-- Only a DPMI entry sets `s_client_cpl`. -/
theorem step_clientCpl {s t : State} {e : Event} (h : step eng s e t) :
    t.m.clientCpl = if entersRing3 s.m e then 3 else s.m.clientCpl := by
  have hframe : ∀ {m m' : Machine}, ServiceFrame m m' → m'.clientCpl = m.clientCpl := fun h =>
    congrArg ProcessGlobals.clientCpl h
  have hglobals : ∀ {m m' : Machine}, SameGlobals m m' → m'.clientCpl = m.clientCpl := fun h => by rw [h.eq]
  cases e with
  | other m' =>
    obtain ⟨-, hm, rfl⟩ := h
    exact hm.clientCpl
  | memory svc =>
    obtain ⟨-, hsvc, m', hm, rfl⟩ := h
    obtain ⟨r, hr, rfl⟩ := Option.map_eq_some_iff.mp hm
    exact hframe (dosMemory_frame svc hsvc s.m r hr)
  | host u =>
    obtain ⟨-, m', hm, rfl⟩ := h
    exact hframe (hostUse_frame hm)
  | files call =>
    obtain ⟨-, rfl⟩ := h
    show (call.serve s.m).1.clientCpl = s.m.clientCpl
    rw [(fileCall_frame call s.m).eq]
  | int31 =>
    obtain ⟨-, -, m', hm, rfl⟩ := h
    exact hframe (dosizInt31_frame hm)
  | dpmiEntry =>
    obtain ⟨-, rfl⟩ := h
    exact (ldtFresh_entry eng s.m).ring
  | enterRm svc =>
    obtain ⟨-, rfl⟩ := h
    exact hglobals (sameGlobals_enterRm eng svc s.m)
  | enterRmcb idx =>
    obtain ⟨cb, -, -, -, rfl⟩ := h
    exact hglobals (sameGlobals_enterRmcb eng cb s.m)
  | exec host =>
    obtain ⟨m', r, -, hm, rfl⟩ := h
    obtain ⟨-, hf⟩ | ⟨m₁, psp, env, regs, hf, -, rfl⟩ := int21_4B_cases hm
    · exact hframe hf
    · have hbefore : m₁.clientCpl = s.m.clientCpl := hframe hf
      exact (hglobals (sameGlobals_startChild eng m₁ psp env regs)).trans hbefore
  | exit =>
    obtain ⟨-, -, rfl⟩ := h
    unfold int21_4C entersRing3
    split <;> rfl
  | stopCallback =>
    obtain ⟨-, -, rfl⟩ := h
    rfl
  | unwind =>
    obtain ⟨l, rest, -, -, rfl⟩ := h
    cases l with
    | exec saved =>
      simp only [Level.finish]
      cases hps : s.m.processStack with
      | nil => rw [execEnd_nil hps]; rfl
      | cons ps tl => exact (hglobals (execEnd_spec eng saved hps).1).trans rfl
    | realMode svc saved => exact hglobals (sameGlobals_leaveRm eng svc saved s.m)
    | callback saved => exact hglobals (sameGlobals_leaveRmcb eng saved s.m)

theorem nextRings_mem {rings : List (Option Nat)} {s t : State} {e : Event} {r : Nat}
    (h : some r ∈ nextRings rings s e t) :
    some r ∈ rings ∨ r = 0 ∨ (r = 3 ∧ entersRing3 s.m e = true) := by
  cases e with
  | dpmiEntry =>
    rcases List.mem_cons.mp h with hr | hr
    · right
      obtain rfl := Option.some.inj hr
      cases hring : goesRing3 s.m
      · exact Or.inl rfl
      · exact Or.inr ⟨rfl, hring⟩
    · exact Or.inl (List.mem_of_mem_tail hr)
  | exec host =>
    simp only [nextRings] at h
    split at h
    · exact Or.inl h
    · exact Or.inl (by simpa using h)
  | unwind =>
    simp only [nextRings] at h
    split at h
    · exact Or.inl (List.mem_of_mem_tail h)
    · exact Or.inl h
  | _ => exact Or.inl h

theorem clientsStep_history {e : Event} (h : CplHistory s) (hs : clientsStep eng s e t) : CplHistory t := by
  obtain ⟨hstep, hrings, hseen⟩ := hs
  constructor
  · rw [step_clientCpl hstep, hseen, h.cpl]
    cases entersRing3 s.st.m e <;> cases s.ring3Seen <;> rfl
  · intro r hr
    rw [hrings] at hr
    rcases nextRings_mem hr with hr | hr | ⟨hr, he⟩
    · rcases h.ring r hr with h₀ | ⟨h₃, hs₃⟩
      · exact Or.inl h₀
      · exact Or.inr ⟨h₃, by rw [hseen, hs₃, Bool.true_or]⟩
    · exact Or.inl hr
    · exact Or.inr ⟨hr, by rw [hseen, he, Bool.or_true]⟩

theorem run_history {m₀ : Machine} (h₀ : m₀.clientCpl = 0) {es : List Event}
    (hrun : Run (clientsStep eng) (.start m₀) es s) : CplHistory s := by
  refine hrun.invariant (fun _ _ _ => clientsStep_history) ⟨h₀, fun r hr => ?_⟩
  cases List.mem_singleton.mp hr

/-- **The ring of a descriptor.**  In every run of clients, a slot is handed out at the ring of the
    client that asks for it where that is 3, or no client before was at ring 3; AX=000D hands it
    out at ring 0. -/
theorem grants_right_iff {m₀ r : Machine} (h₀ : m₀.clientCpl = 0) {es : List Event}
    (hrun : Run (clientsStep eng) (.start m₀) es s) {ring i : Nat} (hring : s.rings.head? = some (some ring))
    {c : LdtCall} (h : c.serve eng s.st.m = some (r, false)) (hi : i ∈ handsOut c s.st.m r false) :
    AtRing ring c r i ↔
      if c = .ax000D then ring = 0 ∧ s.st.m.bx % 4 = 0 else ring = 3 ∨ s.ring3Seen = false := by
  have hh := run_history h₀ hrun
  have hcpl : CplOk s.st.m := by
    rw [CplOk, hh.cpl]
    cases s.ring3Seen
    · exact Or.inl rfl
    · exact Or.inr rfl
  have hr := hh.ring ring (List.mem_of_mem_head? hring)
  have hring' : ring = 0 ∨ ring = 3 := hr.imp_right And.left
  rw [atRing_iff hcpl hring' h hi]
  split_ifs with hc
  · exact Iff.rfl
  · rw [hh.cpl]
    rcases hr with rfl | ⟨rfl, hseen⟩
    · cases s.ring3Seen <;> decide
    · rw [hseen]
      decide

end Run

/-! ### A 16-bit client after a 32-bit one -/

/-- In real mode, with AX and CX. -/
def called (m : Machine) (ax cx : Nat) : Machine :=
  ({ m with cpu := zeroCpu }.setR16 .eax ax).setR16 .ecx cx

theorem other_called (m : Machine) (ax cx : Nat) : SameHostState m (called m ax cx) where
  ldtInUse := rfl
  seg2descCache := rfl
  clientCpl := rfl
  pmExc := rfl
  rmCallbacks := rfl
  pmBusy := rfl
  handles := rfl
  fds := rfl
  stubs := rfl
  dpmiRing0 := rfl
  processStack := rfl
  childExitPending := rfl
  lastChildExit := rfl

/-- A client enters, and is about to ask for one descriptor. -/
theorem run_client {eng : Engine} {m m' : Machine} {ax : Nat} {b : Bool} (hring : goesRing3 (called m ax 0) = b)
    (hm' : m' = dosizDpmiEntry eng (called m ax 0)) (ring : Option Nat) (rest : List (Option Nat)) (seen : Bool) :
    Run (clientsStep eng) ⟨⟨m, [], false⟩, ring :: rest, seen⟩
      [.other (called m ax 0), .dpmiEntry, .other (called m' 0 1)]
      ⟨⟨called m' 0 1, [], false⟩, some (if b then 3 else 0) :: rest, seen || b⟩ := by
  refine .cons (t := ⟨⟨called m ax 0, [], false⟩, ring :: rest, seen⟩) ⟨⟨rfl, ?_, rfl⟩, rfl, ?_⟩ ?_
  · exact other_called m ax 0
  · exact (Bool.or_false seen).symm
  refine .cons (t := ⟨⟨m', [], false⟩, some (if b then 3 else 0) :: rest, seen || b⟩) ⟨⟨rfl, ?_⟩, ?_, ?_⟩ ?_
  · rw [hm']
  · simp only [nextRings, hring, List.tail_cons]
  · simp only [entersRing3, hring]
  exact .single ⟨⟨rfl, other_called m' 0 1, rfl⟩, rfl, (Bool.or_false _).symm⟩

/-- The first client, at ring 3. -/
def bigClient : Machine := dosizDpmiEntry tableEngine (called bootMachine 1 0)

/-- The second, at ring 0. -/
def smallClient : Machine := dosizDpmiEntry tableEngine (called (called bigClient 0 1) 0 0)

theorem bigClient_eq : bigClient = dosizDpmiEntry tableEngine (called bootMachine 1 0) := rfl

theorem smallClient_eq : smallClient = dosizDpmiEntry tableEngine (called (called bigClient 0 1) 0 0) := rfl

theorem bigClient_ring : goesRing3 (called bootMachine 1 0) = true := by
  decide +kernel

theorem smallClient_ring : goesRing3 (called (called bigClient 0 1) 0 0) = false := by
  have hax : (called (called bigClient 0 1) 0 0).ax = 0 := 
    (r16_setR16_of_ne _ 0 (by decide)).trans (r16_setR16 _ .eax 0)
  rw [goesRing3, wants32, hax]
  rfl

attribute [irreducible] bigClient smallClient

theorem run_bigClient : Run (clientsStep tableEngine) ⟨⟨bootMachine, [], false⟩, [none], false⟩
    [.other (called bootMachine 1 0), .dpmiEntry, .other (called bigClient 0 1)]
    ⟨⟨called bigClient 0 1, [], false⟩, [some 3], true⟩ :=
  run_client bigClient_ring bigClient_eq none [] false

theorem run_smallClient : Run (clientsStep tableEngine) ⟨⟨called bigClient 0 1, [], false⟩, [some 3], true⟩
    [.other (called (called bigClient 0 1) 0 0), .dpmiEntry, .other (called smallClient 0 1)]
    ⟨⟨called smallClient 0 1, [], false⟩, [some 0], true⟩ :=
  run_client smallClient_ring smallClient_eq (some 3) [] true

/-- AX=0000 for one descriptor is answered where a slot is free. -/
theorem one_granted {m : Machine} (hcx : m.cx = 1) (hfree : ldtFindRun m 1 ≠ 0) :
    ∃ r, int31_0000 m = some (r, false) := by
  unfold int31_0000
  dsimp only
  rw [hcx, if_neg (by decide), if_neg hfree]
  exact ⟨_, rfl⟩

/-- A client that asks for one descriptor gets it where a slot is free. -/
theorem client_granted (m : Machine) (hfree : ldtFindRun m 1 ≠ 0) :
    ∃ r, int31_0000 (called m 0 1) = some (r, false) ∧
      r.ax / 8 ∈ handsOut .ax0000 (called m 0 1) r false := by
  have hcx : (called m 0 1).cx = 1 := r16_setR16 _ .ecx 1
  obtain ⟨r, hr⟩ := one_granted hcx hfree
  refine ⟨r, hr, ?_⟩
  simp only [handsOut, Bool.false_eq_true, if_false, hcx, Set.mem_Ico]
  omega

/-- The search finds a slot where there is one. -/
theorem ldtFindRun_one {m : Machine} {i : Nat} (hpos : 1 ≤ i) (hlt : i < LDT_COUNT)
    (hfree : m.ldtInUse i = false) : ldtFindRun m 1 ≠ 0 := by
  intro hzero
  rcases ldtFindRun_firstFit m (show 0 < 1 by decide) with ⟨hfound, -⟩ | ⟨-, hnone⟩
  · exact hfound hzero
  · refine hnone i hpos hlt fun j h₁ h₂ => ?_
    obtain rfl : j = i := by
      omega
    exact hfree

theorem installStarterSet_spare {set : List (Nat × Nat × Nat × Bool)} {i : Nat} (hi : ∀ d ∈ set, i ≠ d.1) :
    ∀ m : Machine, (installStarterSet m set).ldtInUse i = m.ldtInUse i := by
  induction set with
  | nil => exact fun _ => rfl
  | cons d set ih =>
    intro m
    refine (ih (fun d hd => hi d (List.mem_cons_of_mem _ hd)) _).trans ?_
    exact Function.update_of_ne (hi d List.mem_cons_self) _ _

/-- A client starts with the slots past the starter set free. -/
theorem entry_spare (eng : Engine) (m : Machine) : (dosizDpmiEntry eng m).ldtInUse 6 = false := by
  have hslot : ∀ {a b : Machine}, SameGlobals a b → b.ldtInUse = a.ldtInUse := fun h => by
    rw [h.eq]
  rw [dosizDpmiEntry_eq]
  split
  · rw [hslot (sameGlobals_enterRing3 _ _ _ _), ring3Tables, hslot (sameGlobals_setMem _ _)]
    rw [installStarterSet_spare (by simp [starterSet])]
    rfl
  · rw [hslot (sameGlobals_enterRing0 _ _), entryTables, hslot (sameGlobals_catchAllGates _ _)]
    rfl

theorem entry_free (eng : Engine) (m : Machine) : ldtFindRun (dosizDpmiEntry eng m) 1 ≠ 0 :=
  ldtFindRun_one (by decide) (by decide) (entry_spare eng m)

theorem bigClient_free : ldtFindRun bigClient 1 ≠ 0 := by
  rw [bigClient_eq]
  exact entry_free _ _

theorem smallClient_free : ldtFindRun smallClient 1 ≠ 0 := by
  rw [smallClient_eq]
  exact entry_free _ _

theorem grants_right_iff_one : ∃ r, int31_0000 (called bigClient 0 1) = some (r, false) ∧
    AtRing 3 .ax0000 r (r.ax / 8) := by
  obtain ⟨r, hr, hi⟩ := client_granted bigClient bigClient_free
  have h₀ : bootMachine.clientCpl = 0 := rfl
  have hring : [some 3].head? = some (some 3) := rfl
  exact ⟨r, hr, (grants_right_iff (c := .ax0000) h₀ run_bigClient hring hr hi).mpr (Or.inl rfl)⟩

/-- The ring-0 client gets a descriptor and a selector of ring 3. -/
theorem ring_left_over : ∃ es s r, Run (clientsStep tableEngine) (.start bootMachine) es s ∧
    s.rings.head? = some (some 0) ∧ int31_0000 s.st.m = some (r, false) ∧
    r.ax / 8 ∈ handsOut .ax0000 s.st.m r false ∧ ¬ AtRing 0 .ax0000 r (r.ax / 8) := by
  obtain ⟨r, hr, hi⟩ := client_granted smallClient smallClient_free
  have hrun := run_bigClient.append run_smallClient
  have h₀ : bootMachine.clientCpl = 0 := rfl
  have hcpl : (called smallClient 0 1).clientCpl = 3 := (run_history h₀ hrun).cpl
  have hserve : LdtCall.ax0000.serve tableEngine (called smallClient 0 1) = some (r, false) := hr
  refine ⟨_, _, r, hrun, rfl, hr, hi, fun ha => ?_⟩
  have hzero := (atRing_iff (Or.inr hcpl) (Or.inl rfl) hserve hi).mp ha
  rw [if_neg (by decide), hcpl] at hzero
  exact absurd hzero (by decide)

end Grants

end Dosiz
