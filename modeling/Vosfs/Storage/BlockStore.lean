import Mathlib.Data.List.Induction
import Vosfs.Storage.DataNode

/-!
# A data node as a store of blocks

Over any sequence of requests the files of a data node are a store of blocks by inode number
and block id (`Represents`): an upload that is answered `kOk` sets its own block and no other,
and a download answered `kOk` brings what the last upload of its block left (`blocksApart`).
That file writes are complete is assumed here.
-/

namespace Vosfs.Storage

open Function
open Raft (UploadBlockRequest DownloadBlockRequest)

/-- A request to a data node, and what happens while it is served. -/
inductive BlockRequest
  | upload (io : UploadIo) (request : UploadBlockRequest)
  | download (io : DownloadIo) (request : DownloadBlockRequest)

/-- A write returns, and has written all it was given. -/
def BlockRequest.Writes : BlockRequest → Prop
  | .upload io request => ∃ count, io.write = some count ∧ request.data.length ≤ count
  | .download _ _ => True

/-- The data of each block, by the number of the inode and the block's id. -/
abbrev Blocks := ℕ × ℕ → Option (List UInt8)

/-- The files, and as history the uploads that were answered `kOk`, oldest first. -/
structure Served where
  files : BlockFiles
  uploads : List UploadBlockRequest := []

namespace DataNode

variable (node : DataNode)

/-- A request, which is recorded if it is an upload that is answered `kOk`. -/
def serve (s : Served) : BlockRequest → Served
  | .upload io request =>
    let (files, response) := node.handleUploadBlockRequest io s.files request
    { files := files
      uploads := if response.statusCode = .ok then s.uploads ++ [request] else s.uploads }
  | .download _ _ => s

/-- Requests one after another. -/
def serveAll (s : Served) (requests : List BlockRequest) : Served :=
  requests.foldl node.serve s

/-- The block that the uploads left, over the blocks that were there. -/
def blocksAfter (blocks : Blocks) (uploads : List UploadBlockRequest) : Blocks :=
  uploads.foldl (fun blocks upload => update blocks (upload.ino, upload.blockId) (some upload.data))
    blocks

/-- Each block has its file. -/
def Represents (files : BlockFiles) (blocks : Blocks) : Prop :=
  ∀ ino blockId, files (node.getBlockPath ino blockId) = blocks (ino, blockId)

variable {node} {files : BlockFiles} {blocks : Blocks} {s : Served}

theorem Represents.update (h : node.Represents files blocks) (ino blockId : ℕ)
    (data : Option (List UInt8)) :
    node.Represents (update files (node.getBlockPath ino blockId) data)
      (update blocks (ino, blockId) data) := by
  intro ino' blockId'
  by_cases hsame : (ino', blockId') = (ino, blockId)
  · obtain ⟨rfl, rfl⟩ := Prod.mk.inj hsame
    rw [update_self, update_self]
  · have hpath : node.getBlockPath ino' blockId' ≠ node.getBlockPath ino blockId := fun heq =>
      hsame (Prod.ext_iff.mpr (getBlockPath_injective heq))
    rw [update_of_ne hpath, update_of_ne hsame]
    exact h ino' blockId'

/-- An upload stores all its data and is answered `kOk`, or it changes nothing. -/
theorem upload_cases {io : UploadIo} {request : UploadBlockRequest}
    (hwrites : (BlockRequest.upload io request).Writes) :
    ((node.handleUploadBlockRequest io files request).2.statusCode = .ok ∧
      (node.handleUploadBlockRequest io files request).1 =
        update files (node.getBlockPath request.ino request.blockId) (some request.data)) ∨
    ((node.handleUploadBlockRequest io files request).2.statusCode ≠ .ok ∧
      (node.handleUploadBlockRequest io files request).1 = files) := by
  obtain ⟨count, hcount, hle⟩ := hwrites
  by_cases hok : (node.handleUploadBlockRequest io files request).2.statusCode = .ok
  · obtain ⟨count', hcount', hfiles⟩ := exists_of_upload_ok hok
    rw [hcount] at hcount'
    cases hcount'
    rw [List.take_of_length_le hle] at hfiles
    exact Or.inl ⟨hok, hfiles⟩
  · refine Or.inr ⟨hok, ?_⟩
    unfold handleUploadBlockRequest at hok ⊢
    split
    next => rfl
    next htoken =>
      rw [if_neg htoken] at hok
      dsimp only at hok ⊢
      split
      next => rfl
      next hcreate =>
        rw [if_neg hcreate, hcount] at hok
        exact absurd rfl hok

/-- A request keeps files and blocks together. -/
theorem Represents.serve {initial : Blocks}
    (h : node.Represents s.files (blocksAfter initial s.uploads)) {request : BlockRequest}
    (hwrites : request.Writes) :
    node.Represents (node.serve s request).files
      (blocksAfter initial (node.serve s request).uploads) := by
  cases request with
  | download io request => exact h
  | upload io request =>
    unfold DataNode.serve
    rcases @upload_cases node s.files io request hwrites with
      ⟨hok, hfiles⟩ | ⟨hrefused, hfiles⟩
    · dsimp only
      rw [if_pos hok, hfiles, blocksAfter, List.foldl_append]
      exact h.update _ _ _
    · dsimp only
      rw [if_neg hrefused, hfiles]
      exact h

theorem Represents.serveAll {initial : Blocks}
    (h : node.Represents s.files (blocksAfter initial s.uploads)) {requests : List BlockRequest}
    (hwrites : ∀ request ∈ requests, request.Writes) :
    node.Represents (node.serveAll s requests).files
      (blocksAfter initial (node.serveAll s requests).uploads) := by
  induction requests generalizing s with
  | nil => exact h
  | cons request requests ih =>
    exact ih (h.serve (hwrites request List.mem_cons_self))
      fun later hlater => hwrites later (List.mem_cons_of_mem _ hlater)

/-- The last upload of a block. -/
def lastUpload (uploads : List UploadBlockRequest) (ino blockId : ℕ) : Option UploadBlockRequest :=
  uploads.reverse.find? fun upload => upload.ino = ino ∧ upload.blockId = blockId

/-- The last upload of a block decides, whatever other blocks were written in between. -/
theorem blocksAfter_eq (uploads : List UploadBlockRequest) (ino blockId : ℕ) :
    blocksAfter blocks uploads (ino, blockId) =
      match lastUpload uploads ino blockId with
      | some upload => some upload.data
      | none => blocks (ino, blockId) := by
  induction uploads using List.reverseRecOn with
  | nil => rfl
  | append_singleton uploads upload ih =>
    unfold lastUpload blocksAfter at *
    rw [List.foldl_append, List.reverse_append, List.reverse_singleton, List.singleton_append,
      List.find?_cons]
    by_cases hsame : upload.ino = ino ∧ upload.blockId = blockId
    · obtain ⟨rfl, rfl⟩ := hsame
      simp
    · have hpair : (ino, blockId) ≠ (upload.ino, upload.blockId) := fun heq =>
        hsame ⟨(Prod.mk.inj heq).1.symm, (Prod.mk.inj heq).2.symm⟩
      simp only [hsame, decide_false]
      rw [← ih]
      exact update_of_ne hpair _ _

/-- **Blocks never share a file**: different blocks have different paths, and after any requests
a download that is answered `kOk` returns the data of the last upload of its block, or what the
block's file held at the start. -/
theorem blocksApart :
    (∀ ino ino' blockId blockId', node.getBlockPath ino blockId = node.getBlockPath ino' blockId' →
      ino = ino' ∧ blockId = blockId') ∧
    ∀ (files : BlockFiles) (requests : List BlockRequest), (∀ request ∈ requests, request.Writes) →
      ∀ (io : DownloadIo) (request : DownloadBlockRequest),
        (node.handleDownloadBlockRequest io (node.serveAll ⟨files, []⟩ requests).files
          request).statusCode = .ok →
        some (node.handleDownloadBlockRequest io (node.serveAll ⟨files, []⟩ requests).files
            request).data =
          match lastUpload (node.serveAll ⟨files, []⟩ requests).uploads request.ino
              request.blockId with
          | some upload => some upload.data
          | none => files (node.getBlockPath request.ino request.blockId) := by
  refine ⟨fun _ _ _ _ => getBlockPath_injective, fun files requests hwrites io request hok => ?_⟩
  have hstart : node.Represents files fun block => files (node.getBlockPath block.1 block.2) :=
    fun _ _ => rfl
  have hserved := Represents.serveAll (s := ⟨files, []⟩) hstart hwrites request.ino request.blockId
  rw [← data_of_download_ok hok, hserved, blocksAfter_eq]

/-- Two blocks whose numbers have the same digits. -/
def sameDigits : List BlockRequest :=
  [.upload { write := some 9 } { token := "", blockId := 23, ino := 1, data := [7] },
    .upload { write := some 9 } { token := "", blockId := 3, ino := 12, data := [8] }]

theorem blocksApart_sameDigits :
    (DataNode.handleDownloadBlockRequest ⟨1, "/"⟩ {}
      (DataNode.serveAll ⟨1, "/"⟩ ⟨fun _ => none, []⟩ sameDigits).files
      { token := "", blockId := 23, ino := 1 }).data = [7] :=
  Option.some.inj (blocksApart.2 (fun _ => none) sameDigits
    (by
      intro request hrequest
      rcases List.mem_pair.mp hrequest with rfl | rfl <;> exact ⟨9, rfl, by decide⟩)
    {} { token := "", blockId := 23, ino := 1 } (by decide))

end DataNode

end Vosfs.Storage
