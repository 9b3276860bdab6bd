import Mathlib.Data.PNat.Defs
import Vosfs.Library.Decimal
import Vosfs.Raft.Message

/-!
# Data nodes

A data node keeps each block of a file in a file of its own, named by the number of the
inode and the id of the block.  Different blocks have different names
(`getBlockPath_injective`).

An upload truncates the file of its block and writes the data with one call of `File::write`,
which may write less.
-/

namespace Vosfs.Storage

open Function
open Raft (StatusCode UploadBlockRequest UploadBlockResponse DownloadBlockRequest
  DownloadBlockResponse)

/-- The id and the block directory of a data node. -/
structure DataNode where
  id : ℕ
  blockDir : String

/-- The file name of a block. -/
def blockName (ino blockId : ℕ) : String :=
  toString ino ++ "-" ++ toString blockId

/-- The path of a block, in its directory. -/
def DataNode.getBlockPath (node : DataNode) (ino blockId : ℕ) : String :=
  if node.blockDir = "/" then
    node.blockDir ++ blockName ino blockId
  else
    node.blockDir ++ "/" ++ blockName ino blockId

/-- The dash separates the numbers. -/
theorem blockName_injective {ino ino' blockId blockId' : ℕ}
    (heq : blockName ino blockId = blockName ino' blockId') : ino = ino' ∧ blockId = blockId' :=
  toString_separated (show '-'.isDigit = false from rfl) heq

theorem DataNode.getBlockPath_injective {node : DataNode} {ino ino' blockId blockId' : ℕ}
    (heq : node.getBlockPath ino blockId = node.getBlockPath ino' blockId') :
    ino = ino' ∧ blockId = blockId' := by
  unfold getBlockPath at heq
  split at heq
  next => exact blockName_injective ((String.append_right_inj _).mp heq)
  next => exact blockName_injective ((String.append_right_inj _).mp heq)

/-! ## Transfer of blocks -/

/-- The files of a data node. -/
abbrev BlockFiles := String → Option (List UInt8)

/-- What happens while a block is stored: the token check, whether the file is created, and how
many bytes are written, unless writing fails. -/
structure UploadIo where
  vertifyToken : String → Bool := fun _ => true
  create : Bool := true
  write : Option ℕ+

/-- What happens while a block is read. -/
structure DownloadIo where
  vertifyToken : String → Bool := fun _ => true
  opens : Bool := true
  readToEnd : Bool := true

namespace DataNode

/-- The response, with the data node that gives it. -/
def makeUploadBlockResponse (statusCode : StatusCode) (message : String)
    (blockId ino dataNodeId : ℕ) : UploadBlockResponse where
  statusCode := statusCode
  message := message
  blockId := blockId
  ino := ino
  dataNodeId := dataNodeId

/-- The response, with the data. -/
def makeDownloadBlockResponse (statusCode : StatusCode) (message : String)
    (blockId ino dataNodeId : ℕ) (data : List UInt8) : DownloadBlockResponse where
  statusCode := statusCode
  message := message
  blockId := blockId
  ino := ino
  dataNodeId := dataNodeId
  data := data

/-- The number of bytes that were written is not looked at. -/
def handleUploadBlockRequest (node : DataNode) (io : UploadIo) (files : BlockFiles)
    (request : UploadBlockRequest) : BlockFiles × UploadBlockResponse :=
  let makeResponse := fun statusCode message =>
    makeUploadBlockResponse statusCode message request.blockId request.ino node.id
  if !io.vertifyToken request.token then
    (files, makeResponse .permissionDenied "无效 Token")
  else
    let blockPath := node.getBlockPath request.ino request.blockId
    if !io.create then
      (files, makeResponse .internal "分片创建失败")
    else
      match io.write with
      | none => (update files blockPath (some []), makeResponse .internal "分片写入失败")
      | some count =>
        (update files blockPath (some (request.data.take count)), makeResponse .ok "分片上传成功")

/-- Reads the file of the block once, and sends what was read. -/
def handleDownloadBlockRequest (node : DataNode) (io : DownloadIo) (files : BlockFiles)
    (request : DownloadBlockRequest) : DownloadBlockResponse :=
  let makeResponse := fun statusCode message data =>
    makeDownloadBlockResponse statusCode message request.blockId request.ino node.id data
  if !io.vertifyToken request.token then
    makeResponse .permissionDenied "无效 Token" []
  else
    match files (node.getBlockPath request.ino request.blockId) with
    | none => makeResponse .internal "分片读取失败" []
    | some data =>
      if !io.opens || !io.readToEnd then
        makeResponse .internal "分片读取失败" []
      else
        makeResponse .ok "分片读取成功" data

variable {node : DataNode} {files : BlockFiles}

/-- An upload that is answered `kOk` has left what was written. -/
theorem exists_of_upload_ok {io : UploadIo} {request : UploadBlockRequest}
    (hok : (node.handleUploadBlockRequest io files request).2.statusCode = .ok) :
    ∃ count, io.write = some count ∧ (node.handleUploadBlockRequest io files request).1 =
      update files (node.getBlockPath request.ino request.blockId)
        (some (request.data.take count)) := by
  unfold handleUploadBlockRequest at hok ⊢
  split at hok
  next => cases hok
  next htoken =>
    split at hok
    next => cases hok
    next hcreate =>
      split at hok
      next => cases hok
      next count hwrite =>
        refine ⟨count, hwrite, ?_⟩
        rw [if_neg htoken]
        dsimp only
        rw [if_neg hcreate]

/-- A download that is answered `kOk` brings the file of the block. -/
theorem data_of_download_ok {io : DownloadIo} {request : DownloadBlockRequest}
    (hok : (node.handleDownloadBlockRequest io files request).statusCode = .ok) :
    files (node.getBlockPath request.ino request.blockId) =
      some (node.handleDownloadBlockRequest io files request).data := by
  unfold handleDownloadBlockRequest at hok ⊢
  split at hok
  next => cases hok
  next htoken =>
    split at hok
    next => cases hok
    next data hdata =>
      split at hok
      next => cases hok
      next hread =>
        rw [if_neg htoken]
        dsimp only
        rw [hdata, if_neg hread]
        rfl

end DataNode

end Vosfs.Storage
