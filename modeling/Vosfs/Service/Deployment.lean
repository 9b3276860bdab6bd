import Vosfs.FileSystem.Replication
import Vosfs.Ui.Publishing
import Vosfs.Ui.RoundTrip

/-!
# The whole service

The metadata nodes, the data nodes and the clients together.  To upload a file, a client asks the
member it takes for the leader for a place (`prepareUpload`), sends the blocks to the data nodes
(`uploadBlock`), and asks the leader to enter the file (`publish`).  What a client does when a
response arrives is a step of `Uploads`; all other requests, and what the members do among
themselves, are steps of `Cluster`.

Responses wait until they are delivered, if ever.  A request that a client set going may be sent at
any later time, and more than once, which covers what the client does to its queue.
-/

namespace Vosfs.Service

open Function
open Raft (Platform Cluster Env Reply PrepareUploadFileRequest PrepareUploadFileResponse
  UploadBlockResponse UploadFileRequest)
open Storage (DataNode BlockFiles UploadIo)
open Ui (Uploads UploadAction BlockUpload sendPrepareUploadFileRequest)

/-- What stays as it is: the directories of the data nodes, and the files on the clients'
machines. -/
structure Site where
  blockDir : ℕ → String
  localFile : ℕ → String → List UInt8

/-- A data node of the site. -/
def Site.dataNode (site : Site) (id : ℕ) : DataNode :=
  ⟨id, site.blockDir id⟩

/-- A leader has made a place for the file of a client. -/
structure Transfer where
  client : ℕ
  ino : ℕ
  response : PrepareUploadFileResponse
  deriving DecidableEq

/-- The metadata nodes, the data nodes and the clients. -/
structure Deployment where
  cluster : Cluster
  /-- The files of each data node. -/
  stores : ℕ → BlockFiles
  clients : ℕ → Uploads
  /-- The responses on their way to the clients. -/
  prepared : List (ℕ × PrepareUploadFileResponse) := []
  answers : List (ℕ × UploadBlockResponse) := []
  /-- History: all transfers. -/
  transfers : List Transfer := []

/-- What one of them does. -/
inductive Action
  | cluster (action : Raft.Action)
  | prepareUpload (client : ℕ) (env : Env) (localPath currentDir : String)
  | uploadBlock (client : ℕ) (localPath : String) (blockId ino offset size node : ℕ)
      (read : Option ℕ+) (io : UploadIo)
  | publish (client : ℕ) (env : Env) (ino : ℕ)
  | receive (client : ℕ) (action : UploadAction)
  /-- The first member in the configuration, or the one that any other response names. -/
  | follow (client leaderId : ℕ)

/-- A request about an upload, which only clients send. -/
def isUpload : Raft.Action → Bool
  | .handle _ _ (.prepareUploadFile _) => true
  | .handle _ _ (.uploadFile _) => true
  | _ => false

/-- The responses of a step to `prepareuploadfile`. -/
def preparedIn (replies : List (ℕ × Reply)) : List PrepareUploadFileResponse :=
  replies.filterMap fun
    | (_, .prepareUploadFile response) => some response
    | _ => none

namespace Deployment

/-- The client's request for a place. -/
def prepareRequest (site : Site) (d : Deployment) (client : ℕ) (localPath currentDir : String) :
    Option PrepareUploadFileRequest :=
  sendPrepareUploadFileRequest (d.clients client).client.session.token localPath currentDir
    (site.localFile client localPath).length

/-- The request for the block, with the data node it goes to. -/
def blockUpload (d : Deployment) (client blockId ino offset size node : ℕ) (read : Option ℕ+)
    (io : UploadIo) : BlockUpload where
  block := { id := blockId, ino := ino, offset := offset, size := size }
  node := node
  token := (d.clients client).client.session.token
  read := read
  io := io

/-- The number the next file gets from the member that the client asks. -/
def nextIno (d : Deployment) (client : ℕ) : ℕ :=
  (d.cluster.node (d.clients client).client.leaderId).stateMachine.nextIno

/-- A response that is delivered is no longer on its way. -/
def deliver (d : Deployment) (client : ℕ) : UploadAction → Option Deployment
  | .prepareUploadFileResponse true response =>
    if (client, response) ∈ d.prepared then
      some { d with prepared := d.prepared.erase (client, response) }
    else
      none
  | .uploadBlockResponse true response _ =>
    if (client, response) ∈ d.answers then
      some { d with answers := d.answers.erase (client, response) }
    else
      none
  | _ => some d

variable [Platform]

/-- The step of the members, if the action is one of theirs. -/
def clusterAction (site : Site) (d : Deployment) : Action → Option Raft.Action
  | .cluster action => if isUpload action then none else some action
  | .prepareUpload client env localPath currentDir =>
    (d.prepareRequest site client localPath currentDir).map fun request =>
      .handle (d.clients client).client.leaderId env (.prepareUploadFile request)
  | .publish client env ino =>
    if .sendUploadFileRequest ino ∈ (d.clients client).client.tasks then
      ((d.clients client).client.sendUploadFileRequest ino).map fun request =>
        .handle (d.clients client).client.leaderId env (.uploadFile request)
    else
      none
  | _ => none

/-- What the metadata nodes do in an action. -/
def clusterStep (site : Site) (d : Deployment) (action : Action) : Option Cluster :=
  (d.clusterAction site action).bind d.cluster.step

/-- An action, with all that becomes known of its answers. -/
def step (site : Site) (d : Deployment) : Action → Option Deployment
  | .cluster action =>
    (d.clusterStep site (.cluster action)).map fun cluster => { d with cluster := cluster }
  | .prepareUpload client env localPath currentDir =>
    (d.clusterStep site (.prepareUpload client env localPath currentDir)).map fun cluster =>
      let responses := preparedIn (cluster.replies.drop d.cluster.replies.length)
      { d with
        cluster := cluster
        prepared := d.prepared ++ responses.map fun response => (client, response)
        transfers := d.transfers ++
          (responses.filter fun response => response.statusCode = .ok).map fun response =>
            { client := client, ino := d.nextIno client, response := response } }
  | .uploadBlock client localPath blockId ino offset size node read io =>
    if .sendUploadBlockRequest localPath blockId ino offset size node ∈
        (d.clients client).client.tasks then
      let result := Ui.uploadBlock site.dataNode (site.localFile client localPath) d.stores
        (d.blockUpload client blockId ino offset size node read io)
      some { d with
        stores := result.1
        answers := d.answers ++ result.2.toList.map fun response => (client, response) }
    else
      none
  | .publish client env ino =>
    (d.clusterStep site (.publish client env ino)).map fun cluster => { d with cluster := cluster }
  | .receive client action =>
    match d.deliver client action, (d.clients client).step action with
    | some delivered, some uploads =>
      some { delivered with clients := update d.clients client uploads }
    | _, _ => none
  | .follow client leaderId =>
    let uploads := d.clients client
    some { d with
      clients := update d.clients client
        { uploads with client := { uploads.client with leaderId := leaderId } } }

/-! ## The conditions -/

/-- Whoever asks for a place gets a number that no one had before. -/
def NewNumber (d : Deployment) : Action → Prop
  | .prepareUpload client _ _ _ => ∀ t ∈ d.transfers, t.ino ≠ d.nextIno client
  | _ => True

/-- Blocks are read and written as a whole. -/
def Whole : Action → Prop
  | .uploadBlock _ _ _ _ _ size _ read io =>
    (∀ count ∈ read, size ≤ (count : ℕ)) ∧ ∃ count ∈ io.write, size ≤ (count : ℕ)
  | _ => True

/-- A client that receives a response is orderly. -/
def ClientsOrderly (d : Deployment) : Action → Prop
  | .receive client action => (d.clients client).Orderly action
  | _ => True

/-- The members keep their trees, the clients their counters, and no block is mixed up or cut
short. -/
structure Sane (site : Site) (d : Deployment) (action : Action) : Prop where
  trees : ∀ members ∈ d.clusterAction site action, d.cluster.TreesHold members
  number : d.NewNumber action
  whole : Whole action
  orderly : d.ClientsOrderly action

instance {d : Deployment} : ∀ action : Action, Decidable (d.NewNumber action)
  | .prepareUpload _ _ _ _ => inferInstanceAs (Decidable (∀ _ ∈ _, _))
  | .cluster _ | .uploadBlock _ _ _ _ _ _ _ _ _ | .publish _ _ _ | .receive _ _ | .follow _ _ =>
    inferInstanceAs (Decidable True)

instance : ∀ action : Action, Decidable (Whole action)
  | .uploadBlock _ _ _ _ _ _ _ _ _ => inferInstanceAs (Decidable ((∀ _ ∈ _, _) ∧ ∃ _ ∈ _, _))
  | .cluster _ | .prepareUpload _ _ _ _ | .publish _ _ _ | .receive _ _ | .follow _ _ =>
    inferInstanceAs (Decidable True)

instance {d : Deployment} : ∀ action : Action, Decidable (d.ClientsOrderly action)
  | .receive _ _ => inferInstanceAs (Decidable (Uploads.Orderly _ _))
  | .cluster _ | .prepareUpload _ _ _ _ | .uploadBlock _ _ _ _ _ _ _ _ _ | .publish _ _ _
  | .follow _ _ => inferInstanceAs (Decidable True)

instance {site : Site} {d : Deployment} {action : Action} : Decidable (Sane site d action) :=
  decidable_of_iff ((∀ members ∈ d.clusterAction site action, d.cluster.TreesHold members) ∧
    d.NewNumber action ∧ Whole action ∧ d.ClientsOrderly action)
    ⟨fun h => ⟨h.1, h.2.1, h.2.2.1, h.2.2.2⟩, fun h => ⟨h.trees, h.number, h.whole, h.orderly⟩⟩

/-! ## The start -/

/-- The members and the clients have just been started. -/
structure Initial (d : Deployment) : Prop where
  cluster : d.cluster.Initial
  clients : ∀ client, ∃ leaderId, d.clients client = { client := { leaderId := leaderId } }
  prepared : d.prepared = []
  answers : d.answers = []
  transfers : d.transfers = []

/-! ## The members -/

variable {site : Site} {d d' : Deployment} {action : Action}

omit [Platform] in
/-- What is delivered was on its way, and nothing but it is taken off. -/
theorem deliver_spec {client : ℕ} {action : UploadAction} {delivered : Deployment}
    (hdeliver : d.deliver client action = some delivered) :
    ∃ prepared answers, delivered = { d with prepared := prepared, answers := answers } ∧
      prepared ⊆ d.prepared ∧ answers ⊆ d.answers ∧
      (∀ response, action = .prepareUploadFileResponse true response →
        (client, response) ∈ d.prepared) ∧
      ∀ response waits, action = .uploadBlockResponse true response waits →
        (client, response) ∈ d.answers := by
  unfold deliver at hdeliver
  split at hdeliver
  next response =>
    obtain ⟨hmem, heq⟩ := Option.ite_none_right_eq_some.mp hdeliver
    cases heq
    refine ⟨_, _, rfl, List.erase_subset, List.Subset.refl _, fun other heq => ?_,
      fun _ _ heq => ?_⟩
    · cases heq
      exact hmem
    · cases heq
  next response waits =>
    obtain ⟨hmem, heq⟩ := Option.ite_none_right_eq_some.mp hdeliver
    cases heq
    refine ⟨_, _, rfl, List.Subset.refl _, List.erase_subset, fun _ heq => ?_,
      fun other _ heq => ?_⟩
    · cases heq
    · cases heq
      exact hmem
  next hprepared hanswer =>
    cases hdeliver
    exact ⟨_, _, rfl, List.Subset.refl _, List.Subset.refl _,
      fun response heq => absurd heq (hprepared response),
      fun response waits heq => absurd heq (hanswer response waits)⟩

/-- The members take a step of their own, or none. -/
theorem cluster_of_step (hstep : d.step site action = some d') :
    d'.cluster = d.cluster ∨ ∃ members, d.clusterAction site action = some members ∧
      d.cluster.step members = some d'.cluster := by
  have hcluster : ∀ {cluster}, d.clusterStep site action = some cluster →
      ∃ members, d.clusterAction site action = some members ∧
        d.cluster.step members = some cluster := fun h => Option.bind_eq_some_iff.mp h
  cases action with
  | cluster members =>
    obtain ⟨cluster, h, rfl⟩ := Option.map_eq_some_iff.mp hstep
    exact Or.inr (hcluster h)
  | prepareUpload client env localPath currentDir =>
    obtain ⟨cluster, h, rfl⟩ := Option.map_eq_some_iff.mp hstep
    exact Or.inr (hcluster h)
  | publish client env ino =>
    obtain ⟨cluster, h, rfl⟩ := Option.map_eq_some_iff.mp hstep
    exact Or.inr (hcluster h)
  | uploadBlock client localPath blockId ino offset size node read io =>
    obtain ⟨-, heq⟩ := Option.ite_none_right_eq_some.mp hstep
    cases heq
    exact Or.inl rfl
  | receive client action =>
    simp only [step] at hstep
    split at hstep
    next delivered uploads hdeliver _ =>
      obtain ⟨_, _, rfl, -⟩ := deliver_spec hdeliver
      cases hstep
      exact Or.inl rfl
    next => cases hstep
  | follow client leaderId =>
    cases hstep
    exact Or.inl rfl

/-- What the members do in a run of the service is a run of theirs. -/
theorem cluster_of_run (hrun : Run (step site) (Sane site) d d') :
    Run Cluster.step Cluster.TreesHold d.cluster d'.cluster := by
  induction hrun with
  | refl => exact .refl
  | next _ hsane hstep ih =>
    rcases cluster_of_step hstep with heq | ⟨members, hmembers, hcluster⟩
    · exact heq ▸ ih
    · exact ih.next (hsane.trees members hmembers) hcluster

end Deployment

end Vosfs.Service
