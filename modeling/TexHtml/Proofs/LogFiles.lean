import TexHtml.Journal.Setup
import TexHtml.Proofs.FileWrites

namespace TexHtml

theorem Path.normal_parent {p : Path} (hp : p.Normal) : p.parent.Normal :=
  ⟨hp.root, fun part hpart => hp.parts part (List.dropLast_subset p.parts hpart)⟩

namespace Disk

theorem here_put (d : Disk) (names : List String) (entry : DiskEntry) :
    (d.put names entry).here = d.here := by
  rw [put]
  split <;> rfl

theorem here_append {d d' : Disk} {path : String} {octets : List UInt8}
    (h : d.append path octets = .ok d') : d'.here = d.here := by
  rw [append] at h
  cases hplace : d.locateForWriting path with
  | error e => rw [hplace] at h; cases h
  | ok place =>
    rw [hplace] at h
    cases h
    exact here_put d _ _

theorem here_ensureDirectory (d : Disk) (path : String) : (d.ensureDirectory path).1.here = d.here := by
  rw [ensureDirectory]
  cases hmade : d.makeDirectory path with
  | error e => rfl
  | ok made =>
    rw [makeDirectory] at hmade
    split at hmade
    · cases hmade
    · cases hmade
    · cases hmade
      exact here_put d _ _

theorem here_ensureDirectories (d : Disk) (levels : Nat) (p : Path) :
    (d.ensureDirectories levels p).1.here = d.here := by
  induction levels generalizing d p with
  | zero => exact here_ensureDirectory d p.text
  | succ levels ih =>
    have hfirst := here_ensureDirectory d p.text
    unfold ensureDirectories
    split
    · rename_i d₁ path hmissing
      rw [hmissing] at hfirst
      split
      · exact hfirst
      · have habove := ih d₁ p.parent
        split
        · rename_i d₂ e hfailed
          rw [hfailed] at habove
          exact habove.trans hfirst
        · rename_i d₂ done hmade
          rw [hmade] at habove
          exact (here_ensureDirectory d₂ p.text).trans (habove.trans hfirst)
    · exact hfirst

def HasNull (path : String) : Prop := path.toList.contains (Char.ofNat 0) = true

theorem locate_eq_embeddedNull_iff {d : Disk} {path : String} :
    d.locate path = .error .embeddedNull ↔ HasNull path := by
  rw [locate]
  split
  · rename_i hnull
    exact iff_of_true rfl hnull
  rename_i hnull
  refine iff_of_false ?_ hnull
  intro h
  split at h
  · cases h
  split at h
  · cases h
  dsimp only at h
  cases hfollow : d.follow (if leadingSlashes path.toList = "" then d.here else []) .directory
      (namedParts path.toList) with
  | error kind => rw [hfollow] at h; cases h
  | ok target => rw [hfollow] at h; cases h

theorem makeDirectory_eq_embeddedNull_iff {d : Disk} {path : String} :
    d.makeDirectory path = .error .embeddedNull ↔ HasNull path := by
  rw [← locate_eq_embeddedNull_iff (d := d), makeDirectory]
  cases d.locate path with
  | error e => exact ⟨fun h => by cases h; rfl, fun h => by cases h; rfl⟩
  | ok t => cases t <;> exact iff_of_false nofun nofun

theorem append_eq_embeddedNull_iff {d : Disk} {path : String} {octets : List UInt8} :
    d.append path octets = .error .embeddedNull ↔ HasNull path := by
  have hplace : d.locateForWriting path = .error .embeddedNull ↔ HasNull path := by
    rw [← locate_eq_embeddedNull_iff (d := d), locateForWriting]
    cases d.locate path with
    | error e => exact ⟨fun h => by cases h; rfl, fun h => by cases h; rfl⟩
    | ok t =>
      refine iff_of_false (fun h => ?_) (by intro h; cases h)
      cases t with
      | free names =>
        dsimp only at h
        split at h
        · cases h
        · split at h <;> cases h
      | entry names entry =>
        cases entry with
        | directory => cases h
        | sealed reason => cases h
        | closed => cases h
        | file old =>
          dsimp only at h
          split at h
          · cases h
          · split at h <;> cases h
  rw [← hplace, append]
  cases d.locateForWriting path with
  | error e => exact ⟨fun h => by cases h; rfl, fun h => by cases h; rfl⟩
  | ok place => exact iff_of_false (by intro h; cases h) (by intro h; cases h)

theorem ensureDirectory_eq_embeddedNull_iff {d : Disk} {path : String} :
    (d.ensureDirectory path).2 = .error .embeddedNull ↔ HasNull path := by
  rw [ensureDirectory]
  cases hmade : d.makeDirectory path with
  | ok d' =>
    refine iff_of_false nofun fun hnull => ?_
    rw [makeDirectory_eq_embeddedNull_iff.mpr hnull] at hmade
    cases hmade
  | error e =>
    dsimp only
    split
    · rename_i hdirectory
      refine iff_of_false nofun fun hnull => ?_
      rw [isDirectory, find, locate_eq_embeddedNull_iff.mpr hnull] at hdirectory
      cases hdirectory
    · rw [← makeDirectory_eq_embeddedNull_iff (d := d), hmade]
      exact ⟨fun h => by cases h; rfl, fun h => by cases h; rfl⟩

theorem hasNull_of_parent {p : Path} (hp : p.Normal) (h : HasNull p.parent.text) : HasNull p.text := by
  rw [HasNull, List.contains_iff_mem] at h ⊢
  obtain hpoint | hslash | ⟨part, hpart, hnull⟩ := Path.mem_text (Path.normal_parent hp) h
  · exact absurd hpoint (by decide)
  · exact absurd hslash (by decide)
  · replace hpart := List.dropLast_subset p.parts hpart
    rw [← Path.namedParts_text hp] at hpart
    exact (mem_of_mem_namedParts hpart hnull).1

theorem ensureDirectories_eq_embeddedNull_iff (d : Disk) (levels : Nat) {p : Path} (hp : p.Normal) :
    (d.ensureDirectories levels p).2 = .error .embeddedNull ↔ HasNull p.text := by
  induction levels generalizing d p with
  | zero => exact ensureDirectory_eq_embeddedNull_iff
  | succ levels ih =>
    have hfirst : (d.ensureDirectory p.text).2 = .error .embeddedNull ↔ HasNull p.text :=
      ensureDirectory_eq_embeddedNull_iff
    unfold ensureDirectories
    split
    · rename_i d₁ path hmissing
      rw [hmissing] at hfirst
      have hnull : ¬HasNull p.text := fun h => nomatch hfirst.mpr h
      refine iff_of_false ?_ hnull
      split
      · nofun
      · have habove := mt (ih d₁ (Path.normal_parent hp)).mp (mt (hasNull_of_parent hp) hnull)
        split
        · rename_i d₂ e hfailed
          rwa [hfailed] at habove
        · exact mt ensureDirectory_eq_embeddedNull_iff.mp hnull
    · exact hfirst

end Disk

namespace Setup

/-- The system does not take the path, whatever is on the disk. -/
def Barred (here : List String) (path : String) : Prop :=
  Disk.HasNull (Path.ofText path).parent.text ∨ Disk.HasNull (Path.absolute here path).text

theorem openFile_spec (disk : Disk) (path : String) :
    (openFile disk path).1.here = disk.here ∧
      match (openFile disk path).2 with
      | .ok absolute =>
        absolute = (Path.absolute disk.here path).text ∧ ¬Barred disk.here path
      | .error e => e = .embeddedNull → Barred disk.here path := by
  have hhere := Disk.here_ensureDirectories disk (Path.ofText path).parent.parts.length
    (Path.ofText path).parent
  have hnull := Disk.ensureDirectories_eq_embeddedNull_iff disk
    (Path.ofText path).parent.parts.length (Path.normal_parent (Path.normal_ofText path))
  unfold openFile
  dsimp only
  rcases hmade : disk.ensureDirectories (Path.ofText path).parent.parts.length
    (Path.ofText path).parent with ⟨d, made⟩
  rw [hmade] at hhere hnull
  cases made with
  | error e => exact ⟨hhere, fun he => .inl (hnull.mp (congrArg Except.error he))⟩
  | ok done =>
    have hparent : ¬Disk.HasNull (Path.ofText path).parent.text := fun hp => nomatch hnull.mpr hp
    dsimp only at hhere ⊢
    rw [hhere]
    cases happend : d.append (Path.absolute disk.here path).text [] with
    | error e =>
      refine ⟨hhere, fun he => .inr ?_⟩
      rw [he] at happend
      exact Disk.append_eq_embeddedNull_iff.mp happend
    | ok d' =>
      refine ⟨(Disk.here_append happend).trans hhere, rfl, ?_⟩
      rintro (hp | ha)
      · exact hparent hp
      · rw [Disk.append_eq_embeddedNull_iff.mpr ha] at happend
        cases happend

theorem here_openFile (disk : Disk) (path : String) : (openFile disk path).1.here = disk.here :=
  (openFile_spec disk path).1

theorem openFile_ok {disk : Disk} {path absolute : String} (h : (openFile disk path).2 = .ok absolute) :
    absolute = (Path.absolute disk.here path).text ∧ ¬Barred disk.here path := by
  have hspec := (openFile_spec disk path).2
  rwa [h] at hspec

theorem barred_of_openFile {disk : Disk} {path : String}
    (h : (openFile disk path).2 = .error .embeddedNull) : Barred disk.here path := by
  have hspec := (openFile_spec disk path).2
  rw [h] at hspec
  exact hspec rfl

end Setup

end TexHtml
