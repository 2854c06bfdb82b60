import Tunescript.Editor.Moves
import Tunescript.Proofs.Editor.BufferText
import Tunescript.Proofs.Storage.Written

/-!
# Persistence

A session that is saved and opened again has its text with unified line ends
(`exists_ofFile_of_saveFile`), and a file that is opened and saved holds its text with unified line
ends (`exists_saveFile_of_ofFile`).  So exactly the texts without a carriage return persist
(`persists_iff`).
-/

namespace Tunescript

open Text (encode unifyLineEnds)

namespace Session

variable {settings : Settings} {host : Host} {files : Files} {path : Path} {t : Text}

theorem ofFile_of_readText (h : files.readText path = .ok t) :
  ofFile settings host files path = .ok (ofText settings host files (some path) t)
  := by
  rw [ofFile, h]

/-- A text that can be written is saved. -/
theorem saveFile_of_writeText {s : Session} (hname : s.filename = some path)
    (h : s.files.writeText path s.text = .ok files) :
  ∃ s', EStateM.run Action.saveFile s = .ok () s' ∧ s'.files = files
  := by
  refine ⟨{ s with files := files, message := "Saved to " ++ String.ofList path.text }, ?_, rfl⟩
  simp only [Action.saveFile, EStateM.run_bind, EStateM.run_get, hname, h]
  rfl

/-- A session that is saved and opened again has its text with unified line ends. -/
theorem exists_ofFile_of_saveFile (settings : Settings) (host : Host) {s : Session}
    (hname : s.filename = some path) (h : s.files.writeText path s.text = .ok files) :
  ∃ s' r, EStateM.run Action.saveFile s = .ok () s' ∧
    ofFile settings host s'.files path = .ok r ∧ r.text = unifyLineEnds s.text
  := by
  obtain ⟨s', hsave, rfl⟩ := saveFile_of_writeText hname h
  obtain ⟨-, hwrite⟩ := Files.writeText_eq_ok_iff.mp h
  have hread := Files.readText_of_read (Files.read_of_write hwrite)
  exact ⟨s', _, hsave, ofFile_of_readText hread, Buffer.text_ofText _⟩

/-- A file that is opened and saved holds its text with unified line ends. -/
theorem exists_saveFile_of_ofFile (settings : Settings) (host : Host) (hroom : files.full = false)
    (h : files.read path path.text = .ok (encode t)) :
  ∃ r r', ofFile settings host files path = .ok r ∧ EStateM.run Action.saveFile r = .ok () r' ∧
    r'.files.read path path.text = .ok (encode (unifyLineEnds t))
  := by
  let r := ofText settings host files (some path) (unifyLineEnds t)
  have hopen : ofFile settings host files path = .ok r :=
    ofFile_of_readText (Files.readText_of_read h)
  have htext : r.text = unifyLineEnds t := Buffer.text_ofText _
  obtain ⟨files', hwrite⟩ := Files.exists_write_of_read h (encode (unifyLineEnds t))
  have hsaved : r.files.writeText path r.text = .ok files' := by
    rw [htext]
    apply Files.writeText_eq_ok_iff.mpr ⟨hroom, hwrite⟩
  obtain ⟨r', hsave, rfl⟩ := saveFile_of_writeText rfl hsaved
  exact ⟨r, r', hopen, hsave, Files.read_of_write hwrite⟩

/-- Exactly what has no carriage return persists: a session that can be saved is saved, and opened
again with its text if there is none in it; and a file with a text is opened and, as long as there
is room, saved with its bytes if there is none in the text. -/
theorem persists_iff (settings : Settings) (host : Host) (path : Path) :
  (∀ (s : Session) (files : Files), s.filename = some path →
    s.files.writeText path s.text = .ok files →
    ∃ s' r, EStateM.run Action.saveFile s = .ok () s' ∧
      ofFile settings host s'.files path = .ok r ∧ (r.text = s.text ↔ '\r' ∉ s.text)) ∧
  ∀ (files : Files) (t : Text), files.full = false → files.read path path.text = .ok (encode t) →
    ∃ r r' bytes, ofFile settings host files path = .ok r ∧
      EStateM.run Action.saveFile r = .ok () r' ∧ r'.files.read path path.text = .ok bytes ∧
      (bytes = encode t ↔ '\r' ∉ t)
  := by
  constructor
  · intro s files hname h
    obtain ⟨s', r, hsave, hopen, htext⟩ := exists_ofFile_of_saveFile settings host hname h
    refine ⟨s', r, hsave, hopen, ?_⟩
    rw [htext, Text.unifyLineEnds_eq_self_iff]
  · intro files t hroom h
    obtain ⟨r, r', hopen, hsave, hread⟩ := exists_saveFile_of_ofFile settings host hroom h
    refine ⟨r, r', _, hopen, hsave, hread, ?_⟩
    rw [Text.encode_inj, Text.unifyLineEnds_eq_self_iff]

/-- The settings of a session without a player. -/
def silentSettings : Settings := { playerCommand := [], previewDirectory := Path.ofText [] }

/-- A file at the top. -/
def scorePath : Path := Path.ofText "s.hum".toList

/-- A text in the file. -/
def storing (t : Text) : Files := ⟨[(["s.hum".toList], .file (encode t))], false⟩

/-- A text with a remark that takes more bytes than characters. -/
def remarked : Text := "~ \u00e9\n| (Cn_4 1/4)\n".toList

/-- A session is saved to a new file and opened again with its text, and a file with that text is
opened and saved with its bytes. -/
theorem persists_iff_remarked :
  (let s := ofText silentSettings {} Files.empty (some scorePath) remarked
   (∃ files, s.files.writeText scorePath s.text = .ok files) ∧
    ∃ s' r, EStateM.run Action.saveFile s = .ok () s' ∧
      ofFile silentSettings {} s'.files scorePath = .ok r ∧ r.text = remarked) ∧
  (storing remarked).read scorePath scorePath.text = .ok (encode remarked) ∧
    ∃ r r', ofFile silentSettings {} (storing remarked) scorePath = .ok r ∧
      EStateM.run Action.saveFile r = .ok () r' ∧
      r'.files.read scorePath scorePath.text = .ok (encode remarked)
  := by
  obtain ⟨hsession, hfile⟩ := persists_iff silentSettings {} scorePath
  have hnone : '\r' ∉ remarked := by decide
  constructor
  · intro s
    obtain ⟨files, hwrite⟩ : ∃ files, s.files.writeText scorePath s.text = .ok files :=
      ⟨_, rfl⟩
    have htext : s.text = remarked := Buffer.text_ofText _
    obtain ⟨s', r, hsave, hopen, hiff⟩ := hsession s files rfl hwrite
    rw [htext] at hiff
    exact ⟨⟨files, hwrite⟩, s', r, hsave, hopen, hiff.mpr hnone⟩
  · have hread : (storing remarked).read scorePath scorePath.text = .ok (encode remarked) := by
      decide +kernel
    obtain ⟨r, r', bytes, hopen, hsave, hbytes, hiff⟩ := hfile (storing remarked) remarked rfl hread
    rw [hiff.mpr hnone] at hbytes
    exact ⟨hread, r, r', hopen, hsave, hbytes⟩

/-- A text whose line ends with a carriage return and a line feed. -/
def returned : Text := "| (Cn_4 1/4)\r\n".toList

/-- A file with such a text is opened and saved with other bytes, without a carriage return. -/
theorem not_persists_returned :
  (storing returned).read scorePath scorePath.text = .ok (encode returned) ∧
    ∃ r r', ofFile silentSettings {} (storing returned) scorePath = .ok r ∧
      EStateM.run Action.saveFile r = .ok () r' ∧
      r'.files.read scorePath scorePath.text = .ok (encode "| (Cn_4 1/4)\n".toList) ∧
      encode "| (Cn_4 1/4)\n".toList ≠ encode returned
  := by
  have hread : (storing returned).read scorePath scorePath.text = .ok (encode returned) := by
    decide +kernel
  obtain ⟨r, r', hopen, hsave, hbytes⟩ := exists_saveFile_of_ofFile silentSettings {} rfl hread
  exact ⟨hread, r, r', hopen, hsave, hbytes, by decide +kernel⟩

end Session

end Tunescript
