import SailfishFpd.Store.Loading

/-!
# A save that is cut short

`saveFingers` opens the file, which empties it, and then writes the map. Cut short
in between, it leaves a file that reads as an empty map: the next start takes
every finger for one it does not know, and saves it as such.
-/

namespace SailfishFpd

open FPDCommunity
open Reactive.Machine (along_cons along_nil)

/-! ## The steps of a save -/

/-- What a Qt call does to the file it writes. -/
inductive FileStep where
  | truncate
  | append (byte : UInt8)

def FileStep.apply (bytes : List UInt8) : FileStep → List UInt8
  | .truncate => []
  | .append byte => bytes ++ [byte]

theorem FileStep.foldl_append (bytes file : List UInt8) :
    (bytes.map FileStep.append).foldl FileStep.apply file = file ++ bytes := by
  induction bytes generalizing file with
  | nil => simp
  | cons byte bytes ih =>
    rw [List.map_cons, List.foldl_cons, ih]
    simp [FileStep.apply]

section Saving

variable [QDataStream]

/-- What `saveFingers` does to a file that it can open. -/
def saveSteps (m : FingerMap) : List FileStep :=
  .truncate :: (QDataStream.write m).map .append

/-- The file when a save of `m` over `old` stops after `n` steps. -/
def fileAfter (old : List UInt8) (m : FingerMap) (n : Nat) : List UInt8 :=
  ((saveSteps m).take n).foldl FileStep.apply old

theorem fileAfter_zero (old : List UInt8) (m : FingerMap) : fileAfter old m 0 = old := rfl

theorem fileAfter_succ (old : List UInt8) (m : FingerMap) (n : Nat) :
    fileAfter old m (n + 1) = (QDataStream.write m).take n := by
  rw [fileAfter, saveSteps, List.take_succ_cons, List.foldl_cons, ← List.map_take,
    FileStep.foldl_append]
  rfl

/-- The number of steps that a save takes, as its file operations fare. -/
def FPDCommunity.stepsTaken (env : Env) (self : FPDCommunity) : Nat :=
  if env.openWrite then (env.room.getD (QDataStream.write self.m_fingerMap).length) + 1 else 0

/-- A handler's save leaves the file at one of its steps. -/
theorem saved_eq_fileAfter {d : FPDCommunity} {old : List UInt8} (h : d.database = some old)
    (env : Env) : d.saved env = some (fileAfter old d.m_fingerMap (d.stepsTaken env)) := by
  unfold saved stepsTaken
  by_cases ho : env.openWrite
  · cases hr : env.room with
    | none => simp [ho, fileAfter_succ]
    | some n => simp [ho, fileAfter_succ]
  · simp [ho, h, fileAfter_zero]

variable [LawfulQDataStream] [CutQDataStream]

/-- Until the last byte is written, the file reads as an empty map. -/
theorem read_fileAfter (old : List UInt8) (m : FingerMap) (n : Nat) :
    QDataStream.read (fileAfter old m n) =
      if n = 0 then QDataStream.read old
      else if (QDataStream.write m).length < n then m else ∅ := by
  cases n with
  | zero => rfl
  | succ n =>
    rw [fileAfter_succ, if_neg (Nat.succ_ne_zero n)]
    by_cases hn : n < (QDataStream.write m).length
    · rw [if_neg (by omega), CutQDataStream.read_take m hn]
    · rw [if_pos (by omega), List.take_of_length_le (by omega), LawfulQDataStream.read_write]

end Saving

/-! ## The next start -/

section Start

variable [QDataStream]

/-- The daemon, started in state `t`, handles the end of its enumeration with `i`; nothing touched
the list before, and it can open the file. -/
structure FirstLoad (t : System) (is : List Input) (i : Input) : Prop where
  opens : i.env.openRead = true
  quiet : daemon.Along t is fun _ e => e.src.edit e.input = .keep
  completes : CompletesEnumeration (daemon.edge (daemon.final t is) i)

/-- The reported fingers of both maps have their old name or their new one. -/
def KeepsNames (reported : List UInt32) (M₀ M₁ m : FingerMap) : Prop :=
  ∀ k ∈ reported, k ∈ M₀ → k ∈ M₁ → m[k]? = M₀[k]? ∨ m[k]? = M₁[k]?

variable {env : Env} {getprop : String → String} {file : List UInt8} {is : List Input} {i : Input}

theorem FirstLoad.enumeration {database : Option (List UInt8)}
    (h : FirstLoad (boot env getprop database) is i) :
    Enumeration (boot env getprop database) is i :=
  ⟨⟨env.hal, {}, by rw [boot_fpd]; rfl⟩, h.completes⟩

theorem FirstLoad.fileMap (h : FirstLoad (boot env getprop (some file)) is i) :
    fileMap (boot env getprop (some file)) is i = QDataStream.read file := by
  obtain ⟨-, hdb⟩ := store_of_quiet h.quiet
  simp [SailfishFpd.fileMap, readDatabase, hdb, boot_fpd, h.opens]

/-- **What the next start makes of a save that was cut short.** A reported finger that has a name
in the old file and in the map that was saved keeps the old name when the save did not open the
file, has the new one when all bytes were written, and is an unknown finger else; the file is
overwritten with that. -/
theorem interrupted_save [LawfulQDataStream] [CutQDataStream] (old : List UInt8) (M₁ : FingerMap)
    (n : Nat) (h : FirstLoad (boot env getprop (some (fileAfter old M₁ n))) is i) :
    let d := (daemon.final (boot env getprop (some (fileAfter old M₁ n))) (is ++ [i])).fpd
    (∀ k ∈ reportedIds is, k ∈ QDataStream.read old → k ∈ M₁ →
      d.m_fingerMap[k]? =
        if n = 0 then (QDataStream.read old)[k]?
        else if (QDataStream.write M₁).length < n then M₁[k]?
        else some (unknownName k)) ∧
      (i.env.Writes → d.database = some (QDataStream.write d.m_fingerMap)) := by
  intro d
  have hd : d = (daemon.step
      (daemon.final (boot env getprop (some (fileAfter old M₁ n))) is) i).1.fpd :=
    congrArg System.fpd (daemon.final_snoc _ is i)
  have hmap := enumeration_map h.enumeration
  rw [h.fileMap, read_fileAfter, ← hd] at hmap
  refine ⟨fun k hk hold hnew => ?_, fun hw => ?_⟩
  · rw [hmap.getElem?, if_pos hk]
    obtain ⟨name, hname⟩ :=
      Option.isSome_iff_exists.mp (Std.ExtTreeMap.mem_iff_isSome_getElem?.mp hold)
    obtain ⟨name', hname'⟩ :=
      Option.isSome_iff_exists.mp (Std.ExtTreeMap.mem_iff_isSome_getElem?.mp hnew)
    by_cases h0 : n = 0
    · simp [h0, hname]
    · by_cases hall : (QDataStream.write M₁).length < n
      · simp [h0, hall, hname']
      · simp [h0, hall]
  · have hdb := enumeration_database h.enumeration
    rw [← hd] at hdb
    rw [hdb]
    simp [saved, hw.openWrite, hw.room]

end Start

/-- A start on a file to which all bytes were written. -/
theorem interrupted_save_complete :
    letI := qt56
    let M₁ : FingerMap := ((∅ : FingerMap).insert 7 "left").insert 8 "right"
    let file := fileAfter (QDataStream.write ((∅ : FingerMap).insert 7 "thumb")) M₁
      ((QDataStream.write M₁).length + 1)
    let d := (daemon.final (boot (.answering SYS_OK) (fun _ => "") (some file))
      ([⟨.callback (.enumerate 7 1), .answering SYS_OK⟩,
        ⟨.callback (.enumerate 8 0), .answering SYS_OK⟩] ++
        [⟨.deliver, .answering SYS_OK⟩])).fpd
    d.m_fingerMap[(7 : UInt32)]? = some "left" := by
  let := qt56
  have := qt56_lawful
  have := qt56_cut
  intro M₁ file d
  have h : FirstLoad (boot (.answering SYS_OK) (fun _ => "") (some file))
      [⟨.callback (.enumerate 7 1), .answering SYS_OK⟩,
        ⟨.callback (.enumerate 8 0), .answering SYS_OK⟩] ⟨.deliver, .answering SYS_OK⟩ :=
    ⟨rfl, along_cons rfl (along_cons rfl along_nil), rfl, [], rfl⟩
  have hname := (interrupted_save _ M₁ _ h).1 7 (by decide) (by simp) (by simp [M₁])
  rw [if_neg (by simp), if_pos (by simp)] at hname
  exact hname.trans (by decide)

/-- Finger `8` is enrolled beside `7`, and no byte of the save reaches the file: the next start
knows neither, and saves them as unknown. -/
theorem torn_save_loses_names :
    letI := qt56
    let file : FingerMap := (∅ : FingerMap).insert 7 "left"
    let killed := daemon.final
      (boot (.answering SYS_OK) (fun _ => "") (some (QDataStream.write file)))
      [⟨.callback (.enumerate 7 0), .answering SYS_OK⟩, ⟨.deliver, .answering SYS_OK⟩,
        ⟨.call ":1.5" (.Enroll "right"), .answering SYS_OK⟩,
        ⟨.callback (.enrollresult 8 0), .answering SYS_OK⟩, ⟨.deliver, .answering SYS_OK⟩,
        ⟨.deliver, { Env.answering SYS_OK with room := some 0 }⟩]
    let d := (daemon.final (boot (.answering SYS_OK) (fun _ => "") killed.fpd.database)
      [⟨.callback (.enumerate 7 1), .answering SYS_OK⟩,
        ⟨.callback (.enumerate 8 0), .answering SYS_OK⟩, ⟨.deliver, .answering SYS_OK⟩]).fpd
    killed.fpd.m_fingerMap.toList = [(7, "left"), (8, "right")] ∧
      killed.fpd.database = some (fileAfter (QDataStream.write file) killed.fpd.m_fingerMap 1) ∧
      d.m_fingerMap.toList = [(7, "Unknown 7"), (8, "Unknown 8")] ∧
      ¬ KeepsNames [7, 8] file killed.fpd.m_fingerMap d.m_fingerMap := by
  let := qt56
  intro file killed d
  refine ⟨by decide, by decide, by decide, fun h => ?_⟩
  have hkept := h 7 (by decide) (by decide) (by decide)
  exact absurd hkept (by decide)

end SailfishFpd
