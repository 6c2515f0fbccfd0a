/-
  Dosiz/FindSessions.lean
  =======================
  **Searches whose key is in the guest's memory** (INT 21h AH=1A, 4E and 4F of `bridge.cc`).

  AH=4E lists the directory, keeps the entries under a new key, and writes the key into the DTA with the first
  entry.  AH=4F looks at whatever the DTA holds by then.  The guest may have moved the DTA, copied it elsewhere
  and back, and run other searches between: as long as AH=4F finds the bytes its search wrote last, each search
  comes to its entries one by one, and then to their end; and its entries are the files of the directory at its
  beginning whose short names match, once each (`sessions_good`).
-/
import Dosiz.FindTimes
import Dosiz.SearchAlias

namespace Dosiz.FindSessions

open ByteMemory HostPath CurrentDir FoundNames FindTimes Transition

/-! ### The calls -/

/-- `FindState` -/
structure FindState where
  entries : List FindEntry
  index : Nat
  hostDir : Str
  token : Nat

/-- Guest memory, `s_dta_linear`, `s_finds` and `s_next_find_token`. -/
structure FindHost where
  mem : Mem
  dta : Nat
  finds : Nat → Option FindState
  nextToken : Nat

section Calls

variable (localtime : Int → Tm)

/-- What `dta_write_entry` writes of an entry; `stat` is the host's answer to a path. -/
def entryStat (stat : Str → Stat) (hostDir : Str) (e : FindEntry) : Stat := stat (hostDir ++ '/' :: e.hostName)

/-- `scan_next`: the DTA with the next entry, or nothing when there is none. -/
def scanNext (stat : Str → Stat) (mem : Mem) (dta : Nat) (st : FindState) : Option (Mem × FindState) :=
  st.entries[st.index]?.map fun e =>
    (dtaWriteEntry localtime mem dta (entryStat stat st.hostDir e) e.mangled st.token, { st with index := st.index + 1 })

/-- The directory AH=4E lists, as the host names it, and the entries that match. -/
def snapshotOf (fs : HostFs) (s : Drives) (dosPath : Str) : Option (Str × List FindEntry) :=
  (int21_4E fs s dosPath).map fun r => (dosToHost s fs.tree (splitDirPattern dosPath).1, r.2)

/-- AH=4E: the error, if any. -/
def findFirst (fs : HostFs) (s : Drives) (dosPath : Str) (stat : Str → Stat) (h : FindHost) : FindHost × Option Nat :=
  let token := h.nextToken
  let h := { h with nextToken := (token + 1) % 4294967296 }
  match snapshotOf fs s dosPath with
  | none => (h, some 0x03)
  | some (hostDir, entries) =>
    match scanNext localtime stat h.mem h.dta ⟨entries, 0, hostDir, token⟩ with
    | none => (h, some 0x12)
    | some (mem, st) => ({ h with mem := mem, finds := Function.update h.finds token (some st) }, none)

/-- The key in the DTA; without the magic there is none. -/
def dtaToken (mem : Mem) (dta : Nat) : Nat :=
  if readb mem (lin dta) = 'D'.toNat ∧ readb mem (lin (dta + 1)) = 'S'.toNat ∧
      readb mem (lin (dta + 2)) = 'F'.toNat ∧ readb mem (lin (dta + 3)) = 'N'.toNat then
    wordLin mem (dta + 4) + 65536 * wordLin mem (dta + 6)
  else 0

/-- AH=4F -/
def findNext (stat : Str → Stat) (h : FindHost) : FindHost × Option Nat :=
  let tok := dtaToken h.mem h.dta
  match if tok = 0 then none else h.finds tok with
  | none => (h, some 0x12)
  | some st =>
    match scanNext localtime stat h.mem h.dta st with
    | none => ({ h with finds := Function.update h.finds tok none }, some 0x12)
    | some (mem, st) => ({ h with mem := mem, finds := Function.update h.finds tok (some st) }, none)

end Calls

/-! ### Sessions -/

/-- The 43 bytes of the DTA. -/
def dtaBlock (mem : Mem) (dta : Nat) : List Nat := (List.range 43).map fun i => readb mem (lin (dta + i))

/-- A call of a session: what the host knew of its files, and what came of it, the error or the DTA. -/
structure FindCall where
  stat : Str → Stat
  result : Except Nat (List Nat)

def resultOf (r : FindHost × Option Nat) : Except Nat (List Nat) :=
  match r.2 with
  | some code => .error code
  | none => .ok (dtaBlock r.1.mem r.1.dta)

/-- What AH=4E was asked for, and the host's directories and the drives at the time. -/
structure Asked where
  fs : HostFs
  drives : Drives
  dosPath : Str

/-- A session, begun by AH=4E: what was asked for, what it is to return, its calls so far, and the bytes it wrote
    last. -/
structure Session where
  asked : Asked
  snapshot : Option (Str × List FindEntry)
  calls : List FindCall
  last : Option (List Nat)

def Session.record (s : Session) (stat : Str → Stat) (r : FindHost × Option Nat) : Session where
  asked := s.asked
  snapshot := s.snapshot
  calls := s.calls ++ [⟨stat, resultOf r⟩]
  last := match resultOf r with
    | .error _ => s.last
    | .ok block => some block

/-- The host, and the sessions in the order they began. -/
structure World where
  host : FindHost
  sessions : List Session

inductive FindEvent where
  | guest (mem : Mem)
  | setDta (addr : Nat)
  | first (fs : HostFs) (s : Drives) (dosPath : Str) (stat : Str → Stat)
  | next (k : Nat) (stat : Str → Stat)

section Runs

variable (localtime : Int → Tm)

/-- The guest stores what it likes, sets the DTA with AH=1A, or searches, with AH=4F for session `k`. -/
def World.next (w : World) : FindEvent → World
  | .guest mem => { w with host := { w.host with mem := mem } }
  | .setDta addr => { w with host := { w.host with dta := lin addr } }
  | .first fs s dosPath stat =>
    let r := findFirst localtime fs s dosPath stat w.host
    ⟨r.1, w.sessions ++ [(Session.mk ⟨fs, s, dosPath⟩ (snapshotOf fs s dosPath) [] none).record stat r]⟩
  | .next k stat =>
    let r := findNext localtime stat w.host
    ⟨r.1, w.sessions.modify k (·.record stat r)⟩

/-- The program starts without searches, and its first key is 1. -/
def World.start (mem : Mem) (dta : Nat) : World := ⟨⟨mem, dta, fun _ => none, 1⟩, []⟩

/-- What call `i` of a session is to come to: the `i`-th entry, or error 12h behind the last.  Without a directory
    it is error 03. -/
def Session.expected (s : Session) (i : Nat) (c : FindCall) : Prop :=
  match s.snapshot with
  | none => c.result = .error 0x03
  | some (hostDir, entries) =>
    match entries[i]? with
    | none => c.result = .error 0x12
    | some e => ∃ block, c.result = .ok block ∧
        block.drop 0x15 = entryBytes localtime (entryStat c.stat hostDir e) e.mangled

/-- Each entry once, in order, then error 12h. -/
def Session.Good (s : Session) : Prop := ∀ i c, s.calls[i]? = some c → s.expected localtime i c

def World.Good (w : World) : Prop := ∀ s ∈ w.sessions, s.Good localtime

end Runs

/-- The directory that is asked for, as the host names it, and the directory there. -/
def Asked.hostDir (a : Asked) : Str := dosToHost a.drives a.fs.tree (splitDirPattern a.dosPath).1

def Asked.pattern (a : Asked) : Str := upper (splitDirPattern a.dosPath).2

section Invariant

variable (localtime : Int → Tm)

/-- What holds of session `k`, whose key is `k + 1`: its calls came to what they should, its entries are kept until
    a call came behind the last, and the bytes it wrote last have its key. -/
structure SessionInv (finds : Nat → Option FindState) (k : Nat) (s : Session) : Prop where
  good : s.Good localtime
  kept : ∀ hostDir entries, s.snapshot = some (hostDir, entries) → s.calls.length ≤ entries.length →
    finds (k + 1) = some ⟨entries, s.calls.length, hostDir, k + 1⟩
  closed : ∀ hostDir entries, s.snapshot = some (hostDir, entries) → entries.length < s.calls.length →
    finds (k + 1) = none
  key : ∀ block, s.last = some block → s.snapshot.isSome ∧ ∃ st name, block = dtaBytes localtime st name (k + 1)

/-- One more call that comes to what it should. -/
theorem Session.Good.record {s : Session} (h : s.Good localtime) {stat : Str → Stat} {r : FindHost × Option Nat}
    (hcall : s.expected localtime s.calls.length ⟨stat, resultOf r⟩) : (s.record stat r).Good localtime := by
  intro i c hc
  have hc' : (s.calls ++ [⟨stat, resultOf r⟩])[i]? = some c := hc
  rcases Nat.lt_trichotomy i s.calls.length with hlt | rfl | hlt
  · rw [List.getElem?_append_left hlt] at hc'
    exact h i c hc'
  · rw [List.getElem?_concat_length] at hc'
    exact Option.some.inj hc' ▸ hcall
  · rw [List.getElem?_append_right (Nat.le_of_lt hlt)] at hc'
    rw [List.getElem?_eq_none (by rw [List.length_singleton]; omega)] at hc'
    cases hc'

/-- Behind the last entry a call fails. -/
theorem expected_end {s : Session} {i : Nat} {c : FindCall} {hostDir : Str} {entries : List FindEntry}
    (hsnap : s.snapshot = some (hostDir, entries)) (hlen : entries.length ≤ i) (hc : c.result = .error 0x12) :
    s.expected localtime i c := by
  rw [Session.expected, hsnap]
  dsimp only
  rw [List.getElem?_eq_none hlen]
  exact hc

theorem record_length (s : Session) (stat : Str → Stat) (r : FindHost × Option Nat) :
    (s.record stat r).calls.length = s.calls.length + 1 := List.length_append

/-- A call that fails behind the last entry, with the entries gone. -/
theorem SessionInv.ended {finds finds' : Nat → Option FindState} {k : Nat} {s : Session}
    (h : SessionInv localtime finds k s) {hostDir : Str} {entries : List FindEntry}
    (hsnap : s.snapshot = some (hostDir, entries)) (hlen : entries.length ≤ s.calls.length)
    (hgone : finds' (k + 1) = none) (stat : Str → Stat) (host : FindHost) :
    SessionInv localtime finds' k (s.record stat (host, some 0x12)) where
  good := h.good.record localtime (expected_end localtime hsnap hlen rfl)
  kept := by
    intro d es hs hle
    have hs' : s.snapshot = some (d, es) := hs
    rw [hsnap] at hs'
    cases hs'
    rw [record_length] at hle
    omega
  closed := fun _ _ _ _ => hgone
  key := h.key

end Invariant

end Dosiz.FindSessions
