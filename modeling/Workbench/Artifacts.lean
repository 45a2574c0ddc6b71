import Workbench.Intake
import Workbench.Records
import Mathlib.Data.List.TakeWhile

/-!
# Staging an upload

An upload comes in chunks of bytes, which are copied to a file of its own under
a limit and then scanned. What fails on the way takes the file with it, and how
the bytes were cut into chunks does not matter.
-/

set_option autoImplicit false

namespace Workbench.Artifacts
open Workbench.Tables Workbench.Records Workbench.CsvReader Workbench.Intake

abbrev Bytes := List UInt8

/-- `workspaces/{workspace}/{token[:2]}/{token}.csv`. -/
structure StorageKey where
  workspace : ℕ
  token : ℕ
deriving DecidableEq

inductive Path where
  | quarantine (token : ℕ)
  | published (key : StorageKey)
deriving DecidableEq

abbrev Files := Path → Option Bytes

def Files.write (files : Files) (path : Path) (content : Bytes) : Files :=
  Function.update files path (some content)

def Files.unlink (files : Files) (path : Path) : Files := Function.update files path none

/-- `os.replace`. -/
def Files.move (files : Files) (source destination : Path) : Files :=
  Function.update (files.unlink source) destination (files source)

section Lookup
variable {files : Files} {path other : Path} {content : Bytes}

@[simp] theorem write_same : files.write path content path = some content := by
  simp [Files.write]

@[simp] theorem write_other (h : other ≠ path) : files.write path content other = files other := by
  simp [Files.write, h]

@[simp] theorem unlink_same : files.unlink path path = none := by
  simp [Files.unlink]

@[simp] theorem unlink_other (h : other ≠ path) : files.unlink path other = files other := by
  simp [Files.unlink, h]

theorem unlink_none (h : files path = none) : files.unlink path = files := by
  rw [Files.unlink, ← h, Function.update_eq_self]

theorem unlink_write : (files.write path content).unlink path = files.unlink path := by
  rw [Files.unlink, Files.write, Function.update_idem, Files.unlink]

end Lookup

inductive Chunk where
  | bytes (content : Bytes)
  | other

structure StagedArtifact where
  token : ℕ
  physicalHash : String
  byteSize : ℕ
  scan : CsvScan

inductive StageError where
  | intake (error : ArtifactIntakeError)
  | fileExists

def copyChunks (maxBytes : ℕ) : Bytes → List Chunk → Except ArtifactIntakeError Bytes
  | written, [] => .ok written
  | _, .other :: _ => .error ⟨.invalidChunk, none⟩
  | written, .bytes content :: chunks =>
    if maxBytes < (written ++ content).length then .error ⟨.byteLimit, some maxBytes⟩
    else copyChunks maxBytes (written ++ content) chunks

/-- What the platform supplies: the hash of bytes, the text that a file with
them yields, and two tables of Unicode. -/
structure Platform where
  sha256 : Bytes → String
  openText : Bytes → TextStream
  isPrintable : Char → Bool
  lower : String → String

/-- `PrivateArtifactStore.stage`. Whatever is raised once the file was opened, or
because it was there, unlinks it. -/
def stage (platform : Platform) (limits : IntakeLimits) (token : ℕ) (delimiter : String)
    (chunks : List Chunk) (files : Files) : Except StageError StagedArtifact × Files :=
  let path := Path.quarantine token
  match delimiterChar delimiter with
  | none => (.error (.intake ⟨.unsupportedDelimiter, none⟩), files)
  | some c =>
    if (files path).isSome then (.error .fileExists, files.unlink path)
    else match copyChunks limits.maxBytes [] chunks with
      | .error error => (.error (.intake error), files.unlink path)
      | .ok content =>
        match scanLocked (platform.openText content) c limits with
        | .error error => (.error (.intake error), (files.write path content).unlink path)
        | .ok scan =>
          (.ok ⟨token, platform.sha256 content, content.length, scan⟩, files.write path content)

section Stages
variable {platform : Platform} {limits : IntakeLimits} {token : ℕ} {delimiter : String}
  {chunks : List Chunk} {files : Files}

theorem copyChunks_bytes (maxBytes : ℕ) (written : Bytes) (parts : List Bytes)
    (h : written.length ≤ maxBytes) :
    copyChunks maxBytes written (parts.map .bytes) =
      if maxBytes < (written ++ parts.flatten).length then .error ⟨.byteLimit, some maxBytes⟩
      else .ok (written ++ parts.flatten) := by
  induction parts generalizing written with
  | nil => simp [copyChunks, h]
  | cons part parts ih =>
    rw [List.map_cons, copyChunks, List.flatten_cons, ← List.append_assoc]
    by_cases hpart : maxBytes < (written ++ part).length
    · have hall : maxBytes < (written ++ part ++ parts.flatten).length :=
        hpart.trans_le (by simp)
      rw [if_pos hpart, if_pos hall]
    · rw [if_neg hpart]
      exact ih _ (not_lt.mp hpart)

theorem copyChunks_ok {maxBytes : ℕ} {written content : Bytes}
    (h : copyChunks maxBytes written chunks = .ok content) (hle : written.length ≤ maxBytes) :
    content.length ≤ maxBytes := by
  induction chunks generalizing written with
  | nil =>
    cases h
    exact hle
  | cons chunk chunks ih =>
    cases chunk with
    | other => cases h
    | bytes part =>
      rw [copyChunks] at h
      split_ifs at h with hpart
      exact ih h (not_lt.mp hpart)

def Acceptable (platform : Platform) (limits : IntakeLimits) (content : Bytes) (scan : CsvScan) :
    Prop :=
  content.length ≤ limits.maxBytes ∧ ∃ delimiter c, delimiterChar delimiter = some c ∧
    scanLocked (platform.openText content) c limits = .ok scan

theorem stage_ok {staged : StagedArtifact} {after : Files}
    (h : stage platform limits token delimiter chunks files = (.ok staged, after)) :
    staged.token = token ∧ ∃ content, Acceptable platform limits content staged.scan ∧
      staged.physicalHash = platform.sha256 content ∧ staged.byteSize = content.length ∧
      after = files.write (.quarantine token) content := by
  unfold stage at h
  simp only at h
  cases hc : delimiterChar delimiter with
  | none => simp [hc] at h
  | some c =>
    rw [hc] at h
    simp only at h
    split_ifs at h
    · simp at h
    cases hcopy : copyChunks limits.maxBytes [] chunks with
    | error e => simp [hcopy] at h
    | ok content =>
      rw [hcopy] at h
      simp only at h
      cases hscan : scanLocked (platform.openText content) c limits with
      | error e => simp [hscan] at h
      | ok scan =>
        simp only [hscan, Prod.mk.injEq, Except.ok.injEq] at h
        obtain ⟨rfl, rfl⟩ := h
        exact ⟨rfl, content, ⟨copyChunks_ok hcopy (Nat.zero_le _), delimiter, c, hc, hscan⟩, rfl,
          rfl, rfl⟩

theorem stage_error {error : StageError} {after : Files} (hfree : files (.quarantine token) = none)
    (h : stage platform limits token delimiter chunks files = (.error error, after)) :
    after = files := by
  unfold stage at h
  simp only [hfree, Option.isSome_none, Bool.false_eq_true, if_false] at h
  cases hc : delimiterChar delimiter with
  | none =>
    simp only [hc, Prod.mk.injEq] at h
    exact h.2.symm
  | some c =>
    rw [hc] at h
    simp only at h
    cases hcopy : copyChunks limits.maxBytes [] chunks with
    | error e =>
      simp only [hcopy, Prod.mk.injEq] at h
      rw [← h.2, unlink_none hfree]
    | ok content =>
      rw [hcopy] at h
      simp only at h
      cases hscan : scanLocked (platform.openText content) c limits with
      | error e =>
        simp only [hscan, Prod.mk.injEq] at h
        rw [← h.2, unlink_write, unlink_none hfree]
      | ok scan => simp [hscan] at h

/-- A table within the limits is staged from its bytes, in whatever chunks they
come, and read back from the staged file. -/
theorem upload_round_trip {c : Char} {header : Row} {rows : List Row} {parts : List Bytes}
    (hc : delimiterChar delimiter = some c) (hwithin : Within limits header rows)
    (hfields : ∀ row ∈ header :: rows, ∀ field ∈ row, field.length ≤ limits.maxFieldCharacters)
    (hbytes : parts.flatten.length ≤ limits.maxBytes)
    (htext : platform.openText parts.flatten = .ofText (writeTable c (header :: rows)))
    (hfree : files (.quarantine token) = none) :
    ∃ staged after, stage platform limits token delimiter (parts.map .bytes) files =
        (.ok staged, after) ∧
      staged.physicalHash = platform.sha256 parts.flatten ∧
      staged.byteSize = parts.flatten.length ∧
      ∃ content, after (.quarantine token) = some content ∧
        readBoundedCsv (platform.openText content) delimiter limits = .ok ⟨staged.scan, rows⟩ ∧
        staged.scan.header = header := by
  obtain ⟨hscan, hread⟩ := scan_table hc hwithin hfields
  rw [← htext] at hscan hread
  have hcopy : copyChunks limits.maxBytes [] (parts.map .bytes) = .ok parts.flatten := by
    rw [copyChunks_bytes _ _ _ (Nat.zero_le _), List.nil_append, if_neg (not_lt.mpr hbytes)]
  refine ⟨⟨token, platform.sha256 parts.flatten, parts.flatten.length, _⟩,
    files.write (.quarantine token) parts.flatten, ?_, rfl, rfl, parts.flatten, write_same, hread,
    rfl⟩
  unfold stage
  simp only [hc, hfree, Option.isSome_none, Bool.false_eq_true, if_false, hcopy, hscan]

end Stages

/-- The sample table as bytes, in the chunks it comes in. -/
def sampleParts : List Bytes :=
  ["id,no", "te\r\n1,\"a,", "b\"\r\n"].map fun part =>
    part.toList.map fun c => UInt8.ofNat c.toNat

/-- Bytes below 128 are their own characters. -/
def samplePlatform : Platform where
  sha256 _ := "b2b992790dad0c51b879d131ea93cf614c63b00f4eeea7c5cdc74ea4d11000bb"
  openText content := .ofText (String.ofList (content.map fun byte => Char.ofNat byte.toNat))
  isPrintable c := decide (32 ≤ c.toNat ∧ c.toNat < 127)
  lower value := String.ofList (value.toList.map Char.toLower)

def sampleLimits : IntakeLimits :=
  ⟨64, 10, 2, 8, by decide, by decide, by decide, by decide⟩

theorem upload_round_trip_sample : ∃ staged after,
    stage samplePlatform sampleLimits 0 "," (sampleParts.map .bytes) (fun _ => none) =
        (.ok staged, after) ∧
      staged.physicalHash = samplePlatform.sha256 sampleParts.flatten ∧
      staged.byteSize = sampleParts.flatten.length ∧
      ∃ content, after (.quarantine 0) = some content ∧
        readBoundedCsv (samplePlatform.openText content) "," sampleLimits =
          .ok ⟨staged.scan, [["1", "a,b"]]⟩ ∧
        staged.scan.header = ["id", "note"] :=
  upload_round_trip (c := ',') (by decide) ⟨by decide, by decide⟩ (by decide) (by decide)
    (congrArg TextStream.ofText (by decide +kernel)) rfl

def basename (value : String) : String :=
  let forward := value.toList.map fun c => if c = '\\' then '/' else c
  strip (String.ofList (forward.reverse.takeWhile (· ≠ '/')).reverse)

/-- `safe_upload_filename`. -/
def safeUploadFilename (platform : Platform) (value : String) : String :=
  let safe := (basename value).toList.map fun c => if platform.isPrintable c then c else '_'
  String.ofList ((if safe = [] then "upload.csv".toList else safe).take 255)

/-- `safe_content_type`. -/
def safeContentType (platform : Platform) (value : String) : String :=
  let normalized := platform.lower (strip value)
  if normalized ∈ ["application/csv", "application/vnd.ms-excel", "text/csv", "text/plain"] then
    normalized
  else "application/octet-stream"

end Workbench.Artifacts
