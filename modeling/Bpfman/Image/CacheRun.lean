import Bpfman.Image.PullProof

/-!
# Pulls that share a cache entry

Pulls of one URL fill the same entry without a lock. Here the operations of any number of pulls on
it are events that come in any order; a pull that crashes has no further events. The entry's two
files are replaced by different operations, so a hit may pair the bytecode of one pull with the
metadata of another. It does not exactly when the pull that was the last to write the bytecode is
also the last that wrote the metadata (`samePull_iff_lastWriters`).

`publish`, the sequence of operations of one pull, is the run in which no other pull has an event
(`publish_run`).
-/

namespace Bpfman.Image

open Fallible Outcome Proc

/-- What a pull has in hand when it starts to fill the entry. -/
structure Fetched where
  image : Digest
  bytecode : Bytes
  data : CachedMetadata
  deriving DecidableEq, Repr

/-- The operations on the entry. -/
inductive Op where
  | ensureCacheDir
  | cacheBytecode
  | validateELF
  | removeCacheEntry
  | saveMetadata
  deriving DecidableEq, Repr

/-- How far a pull is. -/
inductive Phase where
  | next (op : Op)
  | failed (op : Op)
  | succeeded
  deriving DecidableEq, Repr

/-- One operation of one pull, with the way it ends. -/
structure Event where
  pull : Nat
  op : Op
  faults : Faults
  deriving DecidableEq, Repr

/-- The entry, and where each pull is. -/
structure Machine where
  entry : Entry
  phase : Nat → Phase

namespace Machine

def init : Machine := ⟨Entry.empty, fun _ => .next .ensureCacheDir⟩

end Machine

def Phase.after : Op → Bool → Phase
  | .ensureCacheDir, true => .next .cacheBytecode
  | .ensureCacheDir, false => .failed .ensureCacheDir
  | .cacheBytecode, true => .next .validateELF
  | .cacheBytecode, false => .failed .cacheBytecode
  | .validateELF, true => .next .saveMetadata
  | .validateELF, false => .next .removeCacheEntry
  -- the pull returns the error of the validation, whether or not the entry could be removed
  | .removeCacheEntry, _ => .failed .validateELF
  | .saveMetadata, true => .succeeded
  | .saveMetadata, false => .failed .saveMetadata

section

variable (F : Formats) (big : Bool) (P : Nat → Fetched)

/-- The origin of what pull `i` writes. -/
def originOf (i : Nat) : Origin := ⟨i, (P i).image⟩

/-- An operation of pull `i` on the entry. -/
def runOp (i : Nat) (faults : Faults) : Op → Proc Entry String Unit
  | .ensureCacheDir => ensureCacheDir faults.ensureCacheDir
  | .cacheBytecode => cacheBytecode faults.cacheBytecode (P i).bytecode (originOf P i)
  | .validateELF => validateCached F big faults.validate
  | .removeCacheEntry => removeCacheEntry faults.removeCacheEntry
  | .saveMetadata => saveMetadata faults.saveMetadata (P i).data (originOf P i)

/-- Where the directory is gone, a file cannot be opened. -/
def Event.possible (e : Entry) (ev : Event) : Bool :=
  match ev.op with
  | .cacheBytecode => e.dir || ev.faults.cacheBytecode == .notOpened
  | .saveMetadata => e.dir || ev.faults.saveMetadata == .notOpened
  | _ => true

def Machine.step (s : Machine) (ev : Event) : Option Machine :=
  if s.phase ev.pull = .next ev.op ∧ ev.possible s.entry then
    let o := runOp F big P ev.pull ev.faults ev.op s.entry
    some ⟨o.state, Function.update s.phase ev.pull (.after ev.op o.isOk)⟩
  else none

def Machine.run (s : Machine) : List Event → Option Machine
  | [] => some s
  | ev :: evs => (s.step F big P ev).bind fun s' => Machine.run s' evs

end

/-! ## Last writers -/

/-- Which pulls wrote the two files last. -/
structure Writers where
  bytecode : Option Nat
  metadata : Option Nat
  deriving DecidableEq, Repr

def Event.writesBytecode (ev : Event) : Bool :=
  ev.op == .cacheBytecode && ev.faults.cacheBytecode != .notOpened

def Event.writesMetadata (ev : Event) : Bool :=
  ev.op == .saveMetadata && ev.faults.saveMetadata != .notOpened

def Writers.note (l : Writers) (ev : Event) : Writers where
  bytecode := if ev.writesBytecode then some ev.pull else l.bytecode
  metadata := if ev.writesMetadata then some ev.pull else l.metadata

/-- The last writers of a list of events. -/
def lastWriters (evs : List Event) : Writers := evs.foldl Writers.note ⟨none, none⟩

variable {s s' : Machine} {ev : Event} {i : Nat} {l : Writers}

/-- Bytecode, digest and labels of a hit are those of one pull. -/
def SamePull (P : Nat → Fetched) (hit : BytecodeFile × CachedMetadata × Origin) : Prop :=
  ∃ i, hit.1.content = (P i).bytecode ∧ hit.1.origin = originOf P i ∧
    hit.2.1 = (P i).data ∧ hit.2.2 = originOf P i

/-- What the last writers say about the entry. A file that was cut short belongs to a pull that has
failed then, and never came to save its metadata. -/
structure WrittenBy (P : Nat → Fetched) (s : Machine) (l : Writers) : Prop where
  bytecode : ∀ f ∈ s.entry.bytecode, ∃ i, l.bytecode = some i ∧ f.origin = originOf P i ∧
    (f.content = (P i).bytecode ∨ s.phase i = .failed .cacheBytecode)
  metadata : ∀ data o, s.entry.metadata = .saved data o → ∃ i, l.metadata = some i ∧
    o = originOf P i ∧ data = (P i).data ∧
    (s.phase i = .succeeded ∨ s.phase i = .failed .saveMetadata)

theorem writtenBy_init (P : Nat → Fetched) : WrittenBy P Machine.init ⟨none, none⟩ := by
  constructor
  · intro f hf
    simp [Machine.init, Entry.empty] at hf
  · intro data o h
    simp [Machine.init, Entry.empty] at h

section

variable {F : Formats} {big : Bool} {P : Nat → Fetched}

theorem step_eq_some (h : s.step F big P ev = some s') :
    s.phase ev.pull = .next ev.op ∧ ev.possible s.entry = true ∧
      s' = ⟨(runOp F big P ev.pull ev.faults ev.op s.entry).state,
        Function.update s.phase ev.pull
          (.after ev.op (runOp F big P ev.pull ev.faults ev.op s.entry).isOk)⟩ := by
  unfold Machine.step at h
  split_ifs at h with hc
  exact ⟨hc.1, hc.2, (Option.some.inj h).symm⟩

theorem phase_of_ended (h : s.step F big P ev = some s')
    (hi : ∀ op, s.phase i ≠ .next op) : s'.phase i = s.phase i := by
  obtain ⟨hp, -, rfl⟩ := step_eq_some h
  have hne : i ≠ ev.pull := by
    intro heq
    exact hi ev.op (heq ▸ hp)
  exact Function.update_of_ne hne _ _

theorem WrittenBy.keep_bytecode {f : BytecodeFile} (hw : WrittenBy P s l)
    (h : s.step F big P ev = some s') (hf : f ∈ s.entry.bytecode) :
    ∃ i, l.bytecode = some i ∧ f.origin = originOf P i ∧
      (f.content = (P i).bytecode ∨ s'.phase i = .failed .cacheBytecode) := by
  obtain ⟨i, hi, ho, hc⟩ := hw.bytecode f hf
  refine ⟨i, hi, ho, hc.imp_right fun hph => ?_⟩
  rw [phase_of_ended h (by rw [hph]; intro op; exact nofun), hph]

theorem WrittenBy.keep_metadata {data : CachedMetadata} {o : Origin} (hw : WrittenBy P s l)
    (h : s.step F big P ev = some s') (hm : s.entry.metadata = .saved data o) :
    ∃ i, l.metadata = some i ∧ o = originOf P i ∧ data = (P i).data ∧
      (s'.phase i = .succeeded ∨ s'.phase i = .failed .saveMetadata) := by
  obtain ⟨i, hi, ho, hd, hph⟩ := hw.metadata data o hm
  refine ⟨i, hi, ho, hd, ?_⟩
  rw [phase_of_ended h (by rcases hph with hph | hph <;> rw [hph] <;> intro op <;> exact nofun)]
  exact hph

/-- An event that leaves the entry as it is keeps what the last writers say. -/
theorem WrittenBy.of_entry (hw : WrittenBy P s l) (h : s.step F big P ev = some s')
    (hsame : s'.entry = s.entry) : WrittenBy P s' l :=
  ⟨fun _ hf => hw.keep_bytecode h (hsame ▸ hf), fun _ _ hm => hw.keep_metadata h (hsame ▸ hm)⟩

theorem note_of_silent (hb : ev.writesBytecode = false)
    (hm : ev.writesMetadata = false) : l.note ev = l := by
  simp [Writers.note, hb, hm]

theorem ensureCacheDir_files (fails : Bool) (e : Entry) :
    (ensureCacheDir fails e).state.bytecode = e.bytecode ∧
      (ensureCacheDir fails e).state.metadata = e.metadata := by
  cases fails <;> exact ⟨rfl, rfl⟩

theorem validateCached_state (F : Formats) (big fails : Bool) (e : Entry) :
    (validateCached F big fails e).state = e := by
  unfold validateCached
  cases e.bytecode with
  | none => rfl
  | some f =>
    cases fails with
    | true => rfl
    | false =>
      simp only [Bool.false_eq_true, if_false]
      cases validateELF F big f.content <;> rfl

theorem removeCacheEntry_sub (o : RemoveOutcome) (e : Entry) :
    (∀ f ∈ (removeCacheEntry o e).state.bytecode, f ∈ e.bytecode) ∧
      ∀ data origin, (removeCacheEntry o e).state.metadata = .saved data origin →
        e.metadata = .saved data origin := by
  obtain ⟨b, m⟩ := o
  cases b <;> cases m <;> simp [removeCacheEntry, Entry.empty]

theorem WrittenBy.step_cacheBytecode
    (hw : WrittenBy P s l) (h : s.step F big P ev = some s') (hop : ev.op = .cacheBytecode) :
    WrittenBy P s' (l.note ev) := by
  obtain ⟨hp, hposs, hs⟩ := step_eq_some h
  have hmeta : l.note ev =
      ⟨if ev.writesBytecode then some ev.pull else l.bytecode, l.metadata⟩ := by
    simp [Writers.note, Event.writesMetadata, hop]
  rw [hmeta]
  by_cases hno : ev.faults.cacheBytecode = .notOpened
  · -- nothing was written
    have hsame : s'.entry = s.entry := by
      rw [hs, hop]
      simp only [runOp, cacheBytecode, hno]
      split_ifs <;> rfl
    have hnote : ev.writesBytecode = false := by simp [Event.writesBytecode, hno]
    rw [hnote]
    exact hw.of_entry h hsame
  · have hdir : s.entry.dir = true := by
      simpa [Event.possible, hop, hno] using hposs
    have hnote : ev.writesBytecode = true := by simp [Event.writesBytecode, hop, hno]
    rw [hnote, if_pos rfl]
    constructor
    · intro f hf
      refine ⟨ev.pull, rfl, ?_⟩
      rw [hs, hop] at hf ⊢
      cases ho : ev.faults.cacheBytecode with
      | notOpened => exact absurd ho hno
      | renamed | copied =>
        simp only [runOp, cacheBytecode, ho, hdir, not_true, if_false, state_ok,
          Option.mem_some_iff] at hf
        subst hf
        exact ⟨rfl, .inl rfl⟩
      | cutShort n =>
        simp only [runOp, cacheBytecode, ho, hdir, not_true, if_false, state_err,
          Option.mem_some_iff] at hf
        subst hf
        simp [runOp, cacheBytecode, ho, hdir, Phase.after]
    · intro data o hm
      refine hw.keep_metadata h ?_
      rw [← hm, hs, hop]
      simp only [runOp, cacheBytecode, hdir]
      cases ev.faults.cacheBytecode <;> rfl

theorem WrittenBy.step_saveMetadata
    (hw : WrittenBy P s l) (h : s.step F big P ev = some s') (hop : ev.op = .saveMetadata) :
    WrittenBy P s' (l.note ev) := by
  obtain ⟨hp, hposs, hs⟩ := step_eq_some h
  have hbyte : l.note ev =
      ⟨l.bytecode, if ev.writesMetadata then some ev.pull else l.metadata⟩ := by
    simp [Writers.note, Event.writesBytecode, hop]
  rw [hbyte]
  by_cases hno : ev.faults.saveMetadata = .notOpened
  · have hsame : s'.entry = s.entry := by
      rw [hs, hop]
      simp only [runOp, saveMetadata, hno]
      split_ifs <;> rfl
    have hnote : ev.writesMetadata = false := by simp [Event.writesMetadata, hno]
    rw [hnote]
    exact hw.of_entry h hsame
  · have hdir : s.entry.dir = true := by
      simpa [Event.possible, hop, hno] using hposs
    have hnote : ev.writesMetadata = true := by simp [Event.writesMetadata, hop, hno]
    rw [hnote, if_pos rfl]
    constructor
    · intro f hf
      refine hw.keep_bytecode h ?_
      rw [hs, hop] at hf
      simp only [runOp, saveMetadata, hdir] at hf
      cases ho : ev.faults.saveMetadata <;> simp only [ho] at hf <;> exact hf
    · intro data o hm
      refine ⟨ev.pull, rfl, ?_⟩
      rw [hs, hop] at hm ⊢
      cases ho : ev.faults.saveMetadata with
      | notOpened => exact absurd ho hno
      | torn =>
        simp [runOp, saveMetadata, ho, hdir] at hm
      | saved =>
        simp only [runOp, saveMetadata, ho, hdir, not_true, if_false, state_ok] at hm
        cases hm
        exact ⟨rfl, rfl, .inl (by simp [runOp, saveMetadata, ho, hdir, Phase.after])⟩
      | notClosed =>
        simp only [runOp, saveMetadata, ho, hdir, not_true, if_false, state_err] at hm
        cases hm
        exact ⟨rfl, rfl, .inr (by simp [runOp, saveMetadata, ho, hdir, Phase.after])⟩

theorem WrittenBy.step (hw : WrittenBy P s l)
    (h : s.step F big P ev = some s') : WrittenBy P s' (l.note ev) := by
  obtain ⟨-, -, hs⟩ := step_eq_some h
  cases hop : ev.op with
  | cacheBytecode => exact hw.step_cacheBytecode h hop
  | saveMetadata => exact hw.step_saveMetadata h hop
  | ensureCacheDir =>
    rw [note_of_silent (by simp [Event.writesBytecode, hop]) (by simp [Event.writesMetadata, hop])]
    have hf := ensureCacheDir_files ev.faults.ensureCacheDir s.entry
    rw [hop] at hs
    subst hs
    exact ⟨fun f hb => hw.keep_bytecode h (hf.1 ▸ hb),
      fun data o hm => hw.keep_metadata h (hf.2 ▸ hm)⟩
  | validateELF =>
    rw [note_of_silent (by simp [Event.writesBytecode, hop]) (by simp [Event.writesMetadata, hop])]
    have hv := validateCached_state F big ev.faults.validate s.entry
    rw [hop] at hs
    exact hw.of_entry h (hs ▸ hv)
  | removeCacheEntry =>
    rw [note_of_silent (by simp [Event.writesBytecode, hop]) (by simp [Event.writesMetadata, hop])]
    have hr := removeCacheEntry_sub ev.faults.removeCacheEntry s.entry
    rw [hop] at hs
    subst hs
    exact ⟨fun f hb => hw.keep_bytecode h (hr.1 f hb),
      fun data o hm => hw.keep_metadata h (hr.2 data o hm)⟩

theorem WrittenBy.run {evs : List Event} (hw : WrittenBy P s l)
    (h : s.run F big P evs = some s') : WrittenBy P s' (evs.foldl Writers.note l) := by
  induction evs generalizing s l with
  | nil =>
    cases h
    exact hw
  | cons ev evs ih =>
    obtain ⟨s1, h1, h⟩ := Option.bind_eq_some_iff.mp h
    exact ih (hw.step h1) h

/-! ## Hits -/

theorem checkCache_eq_some {e : Entry} {hit : BytecodeFile × CachedMetadata × Origin}
    (h : e.checkCache = some hit) :
    e.bytecode = some hit.1 ∧ e.metadata = .saved hit.2.1 hit.2.2 := by
  unfold Entry.checkCache at h
  cases hb : e.bytecode with
  | none => simp [hb] at h
  | some f =>
    cases hm : e.metadata with
    | absent => simp [hb, hm] at h
    | torn => simp [hb, hm] at h
    | saved data origin =>
      simp only [hb, hm, Option.some.injEq] at h
      subst h
      exact ⟨rfl, rfl⟩

/-- After any interleaving of pulls of one URL, each of which may fail or crash at any operation, a
hit returns bytecode, digest and labels of one pull exactly when the pull that wrote the bytecode
last is the pull that wrote the metadata last. -/
theorem samePull_iff_lastWriters (F : Formats) (big : Bool) (P : Nat → Fetched) (evs : List Event)
    (s : Machine) (hit : BytecodeFile × CachedMetadata × Origin)
    (h : Machine.init.run F big P evs = some s) (hhit : s.entry.checkCache = some hit) :
    SamePull P hit ↔ (lastWriters evs).bytecode = (lastWriters evs).metadata := by
  have hw : WrittenBy P s (lastWriters evs) := (writtenBy_init P).run h
  obtain ⟨hb, hm⟩ := checkCache_eq_some hhit
  obtain ⟨i, hi, hio, hic⟩ := hw.bytecode _ hb
  obtain ⟨j, hj, hjo, hjd, hjp⟩ := hw.metadata _ _ hm
  rw [hi, hj]
  constructor
  · rintro ⟨k, -, hk, -, hk'⟩
    have hik : i = k := congrArg Origin.pull (hio.symm.trans hk)
    have hjk : j = k := congrArg Origin.pull (hjo.symm.trans hk')
    rw [hik, hjk]
  · intro heq
    have hij : i = j := Option.some.inj heq
    subst hij
    refine ⟨i, ?_, hio, hjd, hjo⟩
    -- a pull that saved its metadata had put all of its bytecode in place
    rcases hic with hic | hph
    · exact hic
    · rw [hph] at hjp
      rcases hjp with hjp | hjp <;> cases hjp

end

namespace Sample

/-- What a pull has in hand after downloading image `x`. -/
def fetched (x : UInt8) : Fetched := ⟨hash [x], object x, ⟨hash [x], [], []⟩⟩

/-- Pull 0 downloads image 1, every later pull, after the tag has moved, image 2. -/
def pulls : Nat → Fetched
  | 0 => fetched 1
  | _ => fetched 2

/-- The operations of a pull that meets no failure. -/
def events (i : Nat) : List Event :=
  [⟨i, .ensureCacheDir, Faults.none⟩, ⟨i, .cacheBytecode, Faults.none⟩,
    ⟨i, .validateELF, Faults.none⟩, ⟨i, .saveMetadata, Faults.none⟩]

end Sample

open Image.Sample

theorem samePull_iff_lastWriters_sample :
    ∃ s hit, Machine.init.run formats false pulls (events 0 ++ events 1) = some s ∧
      s.entry.checkCache = some hit ∧
      (SamePull pulls hit ↔ (lastWriters (events 0 ++ events 1)).bytecode =
        (lastWriters (events 0 ++ events 1)).metadata) := by
  have hhit : (Machine.init.run formats false pulls (events 0 ++ events 1)).bind
      (·.entry.checkCache) = some ((⟨object 2, 1, Sample.hash [2]⟩ : BytecodeFile),
        (⟨Sample.hash [2], [], []⟩ : CachedMetadata), (⟨1, Sample.hash [2]⟩ : Origin)) := by
    decide +kernel
  obtain ⟨s, hs, hc⟩ := Option.bind_eq_some_iff.mp hhit
  exact ⟨s, _, hs, hc, samePull_iff_lastWriters formats false pulls _ s _ hs hc⟩

/-- Pull 0 fills the entry; pull 1, after the tag has moved, crashes when it has put its bytecode in
place. The entry then pairs the bytecode of image 2 with the digest of image 1. -/
theorem crash_mixes_pulls :
    ∃ s hit, Machine.init.run formats false pulls (events 0 ++ (events 1).take 2) = some s ∧
      s.entry.checkCache = some hit ∧ ¬ SamePull pulls hit ∧
      hit.1.content = object 2 ∧ hit.2.1.digest = Sample.hash [1] := by
  have hhit : (Machine.init.run formats false pulls (events 0 ++ (events 1).take 2)).bind
      (·.entry.checkCache) = some ((⟨object 2, 1, Sample.hash [2]⟩ : BytecodeFile),
        (⟨Sample.hash [1], [], []⟩ : CachedMetadata), (⟨0, Sample.hash [1]⟩ : Origin)) := by
    decide +kernel
  obtain ⟨s, hs, hc⟩ := Option.bind_eq_some_iff.mp hhit
  refine ⟨s, _, hs, hc, ?_, rfl, rfl⟩
  rintro ⟨i, -, hb, -, hm⟩
  have h : (1 : Nat) = 0 := (congrArg Origin.pull hb).trans (congrArg Origin.pull hm).symm
  exact absurd h (by decide)

/-! ## One pull alone -/

section

variable (F : Formats) (big : Bool) (P : Nat → Fetched)

/-- The pull is at its end. -/
def Phase.Ends (p : Phase) (ok : Bool) : Prop := if ok then p = .succeeded else ∃ op, p = .failed op

/-- The events of pull `i` alone, with these failures, lead from `s` to the end of the pull and to
its outcome `o`. -/
def RunsAlone (i : Nat) (faults : Faults) (s : Machine) (o : Outcome Entry String Unit) : Prop :=
  ∃ evs s', s.run F big P evs = some s' ∧ (∀ ev ∈ evs, ev.pull = i ∧ ev.faults = faults) ∧
    s'.entry = o.state ∧ (s'.phase i).Ends o.isOk

variable {F big P} {faults : Faults}

def Machine.advance (s : Machine) (i : Nat) (op : Op) (o : Outcome Entry String Unit) : Machine :=
  ⟨o.state, Function.update s.phase i (.after op o.isOk)⟩

theorem Machine.advance_phase (s : Machine) (i : Nat) (op : Op) (o : Outcome Entry String Unit) :
    (s.advance i op o).phase i = .after op o.isOk :=
  Function.update_self ..

theorem RunsAlone.cons {op : Op} {o1 o : Outcome Entry String Unit} (hp : s.phase i = .next op)
    (hposs : Event.possible s.entry ⟨i, op, faults⟩ = true)
    (ho : runOp F big P i faults op s.entry = o1)
    (h : RunsAlone F big P i faults (s.advance i op o1) o) : RunsAlone F big P i faults s o := by
  obtain ⟨evs, s', hrun, hown, hend⟩ := h
  have hstep : s.step F big P ⟨i, op, faults⟩ = some (s.advance i op o1) := by
    subst ho
    exact if_pos ⟨hp, hposs⟩
  refine ⟨⟨i, op, faults⟩ :: evs, s', ?_, ?_, hend⟩
  · show (s.step F big P ⟨i, op, faults⟩).bind _ = some s'
    rw [hstep]
    exact hrun
  · intro ev hev
    rcases List.mem_cons.mp hev with rfl | hev
    · exact ⟨rfl, rfl⟩
    · exact hown ev hev

theorem RunsAlone.ended {o : Outcome Entry String Unit}
    (he : s.entry = o.state) (hp : (s.phase i).Ends o.isOk) : RunsAlone F big P i faults s o :=
  ⟨[], s, rfl, fun _ hev => absurd hev List.not_mem_nil, he, hp⟩

/-- `publish` is the run of the events of one pull, with its failures and up to its end. -/
theorem publish_run (i : Nat) (faults : Faults) (s : Machine)
    (hp : s.phase i = .next .ensureCacheDir) :
    RunsAlone F big P i faults s
      (publish F big faults (P i).bytecode (P i).data (originOf P i) s.entry) := by
  unfold publish
  cases h1 : ensureCacheDir faults.ensureCacheDir s.entry with
  | err x e1 =>
    rw [bind_of_err h1]
    refine .cons hp rfl h1 (.ended rfl ?_)
    simp [Machine.advance_phase, Phase.after, Phase.Ends, isOk]
  | ok u1 e1 =>
    rw [bind_of_ok h1]
    have hdir1 : e1.dir = true := by rw [ensureCacheDir_eq_ok h1]
    refine .cons hp rfl h1 ?_
    have hp1 := s.advance_phase i .ensureCacheDir (.ok u1 e1)
    cases h2 : cacheBytecode faults.cacheBytecode (P i).bytecode (originOf P i) e1 with
    | err x e2 =>
      rw [bind_of_err h2]
      refine .cons hp1 (by simp [Event.possible, Machine.advance, hdir1]) h2 (.ended rfl ?_)
      simp [Machine.advance_phase, Phase.after, Phase.Ends, isOk]
    | ok u2 e2 =>
      rw [bind_of_ok h2]
      have hdir2 : e2.dir = true := by rw [(cacheBytecode_eq_ok h2).2]; exact hdir1
      refine .cons hp1 (by simp [Event.possible, Machine.advance, hdir1]) h2 ?_
      have hp2 := (s.advance i .ensureCacheDir (.ok u1 e1)).advance_phase i .cacheBytecode
        (.ok u2 e2)
      cases h3 : validateCached F big faults.validate e2 with
      | err x e3 =>
        -- the entry is removed, whatever becomes of that
        rw [bind_of_err (onErr_eq_err.mpr ⟨e3, h3, rfl⟩)]
        refine .cons hp2 rfl h3 ?_
        refine .cons (Machine.advance_phase ..) rfl rfl (.ended rfl ?_)
        simp [Machine.advance_phase, Phase.after, Phase.Ends, isOk]
      | ok u3 e3 =>
        rw [bind_of_ok (onErr_eq_ok.mpr h3)]
        have hdir3 : e3.dir = true := by rw [validateCached_eq_ok h3]; exact hdir2
        refine .cons hp2 rfl h3 ?_
        refine .cons (Machine.advance_phase ..)
          (by simp [Event.possible, Machine.advance, hdir3]) rfl (.ended rfl ?_)
        rw [Machine.advance_phase]
        show Phase.Ends (.after .saveMetadata (saveMetadata _ _ _ e3).isOk) _
        cases (saveMetadata faults.saveMetadata (P i).data (originOf P i) e3).isOk <;>
          simp [Phase.after, Phase.Ends]

end

theorem publish_run_sample : RunsAlone formats false pulls 0 Faults.none Machine.init
    (publish formats false Faults.none (pulls 0).bytecode (pulls 0).data (originOf pulls 0)
      Entry.empty) :=
  publish_run 0 Faults.none Machine.init rfl

end Bpfman.Image
