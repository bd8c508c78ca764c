import WireSurge.Lib.Fs
import WireSurge.Storage.Yaml

/-!
# The request store

The calls of `WorkspaceStore` on requests, as programs over the operations of a
file system (`Lib/Fs.lean`); the YAML library is a parameter. A write that is
interrupted is tried again by the source; here that is one operation.

A request has the path `requestPath` of its id. It is a direct child of the
requests directory for a valid id, and so is the temporary path of an update
(`requestPath_eq`, `tmpPath_eq`), where the path of the store is UTF-8: the source makes
the temporary path of what it shows of the other, and that is elsewhere where it is not
(`tmpPath_shown`).
-/

namespace WireSurge.Storage

open WireSurge.Core (RequestSpec WireSurgeError validateId)
open UnixPath (IsText child display extension join ofText parent separator)

/-! ## Programs over a file system -/

/-- A program that may fail. -/
abbrev FsM := ExceptT WireSurgeError (Prog Fs.Op Fs.Ans)

/-- An operation of the file system. -/
def ask (op : Fs.Op) : FsM (Fs.Ans op) := ExceptT.lift (Prog.request op)

/-- `WireSurgeError::from`. -/
def ofIo (error : Fs.IoError) : WireSurgeError :=
  (WireSurgeError.new "io_error" error.message).withRetryable (error.kind = .interrupted)

/-- The value, or the error that `onError` makes of one. -/
def mapErr {α : Type} (onError : Fs.IoError → WireSurgeError) : Except Fs.IoError α → FsM α
  | .ok a => pure a
  | .error error => throw (onError error)

/-- The loop of `write_all`: each write takes a byte at least, so there are no
more rounds than bytes. -/
def writeRounds (fd : Nat) : Nat → Fs.Bytes → FsM Unit
  | 0, _ => pure ()
  | rounds + 1, bytes =>
    if bytes = [] then pure ()
    else do
      let n ← mapErr ofIo (← ask (.write fd bytes))
      if n = 0 then throw (ofIo ⟨.writeZero, "failed to write whole buffer"⟩)
      else writeRounds fd rounds (bytes.drop n)

/-- `write_all`: a round writes one byte at least, so there are no more rounds than
bytes. -/
def writeAll (fd : Nat) (bytes : Fs.Bytes) : FsM Unit := writeRounds fd bytes.length bytes

/-- The text of what was read. -/
def textOf (content : Except Fs.IoError Fs.Bytes) : Except Fs.IoError String := do
  match Str.decode (← content) with
  | some text => return String.ofList text
  | none => throw ⟨.other, "stream did not contain valid UTF-8"⟩

/-- `fs::read_to_string`. -/
def readToString (path : UnixPath) : FsM (Except Fs.IoError String) := return textOf (← ask (.read path))

/-! ## Errors -/

/-- The error where the workspace file is not there. -/
def workspaceNotFound : WireSurgeError :=
  (WireSurgeError.new "workspace_not_found" "no .wiresurge workspace found").withHint
    "Run `wiresurge workspace init` first."

/-- The error where the file of the request is there. -/
def requestAlreadyExists : WireSurgeError :=
  (WireSurgeError.new "request_already_exists" "a request with this id already exists").atPath "id"

/-- The error of a file that cannot be created. -/
def createError (error : Fs.IoError) : WireSurgeError :=
  if error.kind = .alreadyExists then requestAlreadyExists else ofIo error

/-- The error where the file of the request is not there. -/
def requestNotFound (id : String) : WireSurgeError :=
  (WireSurgeError.new "request_not_found" ("request '" ++ id ++ "' was not found")).atPath "id"

/-! ## The store -/

/-- `WorkspaceStore`: the workspace in the directory `root`. -/
structure WorkspaceStore where
  root : UnixPath

/-- `format!("{}.tmp", path.display())`. -/
def tmpPath (path : UnixPath) : UnixPath := Str.encode (display path ++ ".tmp".toList)

/-- `atomic_write`: a new file is written in place, an old one is replaced by its
temporary file. -/
def atomicWrite (path : UnixPath) (bytes : Fs.Bytes) (createNew : Bool) : FsM Unit :=
  if createNew then do
    let fd ← mapErr createError (← ask (.createNew path))
    writeAll fd bytes
  else do
    let fd ← mapErr ofIo (← ask (.create (tmpPath path)))
    writeAll fd bytes
    mapErr ofIo (← ask (.sync fd))
    mapErr ofIo (← ask (.rename (tmpPath path) path))

namespace WorkspaceStore

variable (store : WorkspaceStore) (yaml : Yaml)

/-- `metadata_dir`. -/
def metadataDir : UnixPath := join store.root (ofText ".wiresurge")

/-- `requests_dir`. -/
def requestsDir : UnixPath := join store.metadataDir (ofText "requests")

/-- The file that shows that there is a workspace. -/
def workspaceFile : UnixPath := join store.metadataDir (ofText "workspace.yaml")

/-- `request_path`; the id has been validated by those who write. -/
def requestPath (id : String) : UnixPath := join store.requestsDir (ofText (id ++ ".yaml"))

/-- `ensure_workspace`. -/
def ensureWorkspace : FsM Unit := do
  if ← ask (.exists_ store.workspaceFile) then pure () else throw workspaceNotFound

/-- `create_request`; that there is no such file is left to `atomicWrite`. -/
def createRequest (request : RequestSpec) : FsM Unit := do
  store.ensureWorkspace
  liftExcept (validateId request.id)
  let text ← liftExcept (yaml.toYaml request)
  atomicWrite (store.requestPath request.id) (Str.encode text.toList) true

/-- `update_request`: the request takes the id it is stored under. -/
def updateRequest (id : String) (request : RequestSpec) : FsM Unit := do
  store.ensureWorkspace
  liftExcept (validateId id)
  let path := store.requestPath id
  if ← ask (.exists_ path) then
    let text ← liftExcept (yaml.toYaml { request with id })
    atomicWrite path (Str.encode text.toList) false
  else throw (requestNotFound id)

/-- `delete_request`. -/
def deleteRequest (id : String) : FsM Unit := do
  store.ensureWorkspace
  liftExcept (validateId id)
  let path := store.requestPath id
  if ← ask (.exists_ path) then mapErr ofIo (← ask (.remove path))
  else throw (requestNotFound id)

/-- `load_request`. -/
def loadRequest (id : String) : FsM RequestSpec := do
  store.ensureWorkspace
  liftExcept (validateId id)
  let input ← mapErr (fun error => if error.kind = .notFound then requestNotFound id else ofIo error)
    (← readToString (store.requestPath id))
  liftExcept (yaml.fromYaml input)

/-- The loop of `list_requests` over the entries. -/
def readEntries : List UnixPath.Name → FsM (List RequestSpec)
  | [] => pure []
  | name :: names => do
    let path := join store.requestsDir name
    if extension path = some (ofText "yaml") then
      let input ← mapErr ofIo (← readToString path)
      let request ← liftExcept (yaml.fromYaml input)
      return request :: (← readEntries names)
    else readEntries names

/-- `list_requests`, in the order of the ids, whatever the order of the entries. -/
def listRequests : FsM (List RequestSpec) := do
  store.ensureWorkspace
  if ← ask (.exists_ store.requestsDir) then
    let names ← mapErr ofIo (← ask (.readDir store.requestsDir))
    let requests ← store.readEntries yaml names
    return requests.mergeSort fun left right => (compare left.id right.id).isLE
  else return []

/-- A workspace without requests. -/
def fresh : Fs where
  nodes :=
    ((AList.insert store.metadataDir .dir ∅).insert store.requestsDir .dir).insert store.workspaceFile (.file 0)
  data _ := Str.encode "name: \"WireSurge Workspace\"\nversion: 1\n".toList
  handles _ := none
  inodes := 1
  opened := 0
  proper := ((Fs.Proper.empty.mkdir _).mkdir _).add _

/-- A workspace with one request file. -/
def withRequest (id : String) (content : Fs.Bytes) : Fs :=
  { store.fresh.addFile (store.requestPath id) with
    data := Function.update store.fresh.data store.fresh.inodes content }

/-! ## Paths -/

theorem join_metadataDir {name : UnixPath.Name} (h : separator ∉ name) :
    join store.metadataDir name = child store.metadataDir name :=
  UnixPath.join_eq_child (UnixPath.join_ne_nil _ (by decide))
    (by rw [metadataDir, UnixPath.getLast?_join _ (by decide)]; decide) h

theorem workspaceFile_eq : store.workspaceFile = child store.metadataDir (ofText "workspace.yaml") :=
  store.join_metadataDir (by decide)

theorem requestsDir_eq : store.requestsDir = child store.metadataDir (ofText "requests") :=
  store.join_metadataDir (by decide)

variable {store}

theorem join_requestsDir {name : UnixPath.Name} (h : separator ∉ name) :
    join store.requestsDir name = child store.requestsDir name :=
  UnixPath.join_eq_child (UnixPath.join_ne_nil _ (by decide))
    (by rw [requestsDir, UnixPath.getLast?_join _ (by decide)]; decide) h

/-- The workspace file is not in the requests directory. -/
theorem child_ne_workspaceFile {name : UnixPath.Name} (h : separator ∉ name) :
    child store.requestsDir name ≠ store.workspaceFile := by
  intro he
  have hparent := congrArg UnixPath.parent he
  rw [UnixPath.parent_child h, workspaceFile_eq, UnixPath.parent_child (by decide), requestsDir_eq] at hparent
  exact UnixPath.child_ne_self hparent

/-- The file name of a request, and of its temporary file. -/
def fileNameOf (id : String) : UnixPath.Name := ofText (id ++ ".yaml")

/-- The name of the temporary file of a request. -/
def tmpNameOf (id : String) : UnixPath.Name := ofText (id ++ ".yaml" ++ ".tmp")

/-- What is shown of the requests directory, as a path. -/
def shownDir (store : WorkspaceStore) : UnixPath := Str.encode (display store.requestsDir)

end WorkspaceStore

/-- A store with a root that is UTF-8. -/
def sampleStore : WorkspaceStore := ⟨ofText "/w"⟩

/-- What a valid id is. -/
theorem validateId_eq_ok {id : String} : validateId id = .ok () ↔
    Str.trim id.toList ≠ [] ∧ ¬ ['.', '.'] <:+: id.toList ∧ ∀ c ∈ id.toList, Core.isIdChar c := by
  simp only [validateId, Core.bind_eq_ok, Core.failWhen_eq_ok, decide_eq_false_iff_not, Bool.not_eq_false',
    List.all_eq_true, ne_eq]

section

variable {store : WorkspaceStore} {id : String}

open WorkspaceStore

theorem ne_nil_of_valid (h : validateId id = .ok ()) : id.toList ≠ [] := fun he =>
  (validateId_eq_ok.mp h).1 (by rw [he]; rfl)

theorem slash_notMem_of_valid (h : validateId id = .ok ()) : '/' ∉ id.toList := fun hid =>
  absurd ((validateId_eq_ok.mp h).2.2 _ hid) (by decide)

theorem noSeparator_of_valid (h : validateId id = .ok ()) : separator ∉ fileNameOf id :=
  UnixPath.noSeparator_append (slash_notMem_of_valid h) (by decide)

theorem noSeparator_tmp (h : validateId id = .ok ()) : separator ∉ tmpNameOf id := by
  rw [tmpNameOf, String.append_assoc]
  exact UnixPath.noSeparator_append (slash_notMem_of_valid h) (by decide)

theorem requestPath_eq (h : validateId id = .ok ()) :
    store.requestPath id = child store.requestsDir (fileNameOf id) :=
  join_requestsDir (noSeparator_of_valid h)

theorem tmpPath_shown (h : validateId id = .ok ()) :
    tmpPath (store.requestPath id) = child store.shownDir (tmpNameOf id) := by
  rw [requestPath_eq h, tmpPath, fileNameOf, UnixPath.encode_display_child]
  rfl

theorem isText_requestsDir : IsText store.requestsDir ↔ IsText store.root := by
  refine ⟨fun h => ?_, fun h => (h.join _).join _⟩
  have hmetadata : IsText store.metadataDir := .of_join rfl (by decide) (by decide) h
  exact .of_join rfl (by decide) (by decide) hmetadata

theorem tmpPath_eq (hroot : IsText store.root) (h : validateId id = .ok ()) :
    tmpPath (store.requestPath id) = child store.requestsDir (tmpNameOf id) := by
  have hshown : store.shownDir = store.requestsDir := isText_requestsDir.mpr hroot
  rw [tmpPath_shown h, hshown]

theorem parent_requestPath (h : validateId id = .ok ()) : parent (store.requestPath id) = store.requestsDir := by
  rw [requestPath_eq h, UnixPath.parent_child (noSeparator_of_valid h)]

theorem parent_tmpPath (h : validateId id = .ok ()) : parent (tmpPath (store.requestPath id)) = store.shownDir := by
  rw [tmpPath_shown h, UnixPath.parent_child (noSeparator_tmp h)]

theorem requestPath_ne_workspaceFile (h : validateId id = .ok ()) : store.requestPath id ≠ store.workspaceFile := by
  rw [requestPath_eq h]
  exact child_ne_workspaceFile (noSeparator_of_valid h)

theorem requestPath_ne_requestsDir (h : validateId id = .ok ()) : store.requestPath id ≠ store.requestsDir := by
  rw [requestPath_eq h]
  exact UnixPath.child_ne_self

/-! Paths are told apart by their extensions. -/

theorem extension_requestPath (h : validateId id = .ok ()) :
    extension (store.requestPath id) = some (ofText "yaml") := by
  rw [requestPath_eq h]
  exact UnixPath.extension_ofText (noSeparator_of_valid h) (ne_nil_of_valid h) rfl (by decide) (by decide)

theorem extension_tmpPath (h : validateId id = .ok ()) :
    extension (tmpPath (store.requestPath id)) = some (ofText "tmp") := by
  rw [tmpPath_shown h]
  exact UnixPath.extension_ofText (noSeparator_tmp h) (by simp) rfl (by decide) (by decide)

theorem extension_workspaceFile : extension store.workspaceFile = some (ofText "yaml") := by
  rw [workspaceFile_eq]
  have hname : ofText "workspace.yaml" = ofText "workspace" ++ UnixPath.dot :: ofText "yaml" := by decide
  rw [hname]
  exact UnixPath.extension_child (by decide) (by decide) (by decide) (by decide)

theorem extension_shownDir : extension store.shownDir = none := by
  have hshown : store.shownDir = child (Str.encode (display store.metadataDir)) (ofText "requests") := by
    rw [shownDir, requestsDir_eq]
    simpa using UnixPath.encode_display_child store.metadataDir "requests" ""
  rw [hshown, UnixPath.extension_of_noDot (by decide) (by decide)]

theorem shownDir_ne_requestPath (h : validateId id = .ok ()) : store.shownDir ≠ store.requestPath id := by
  intro he
  have hext := congrArg extension he
  rw [extension_shownDir, extension_requestPath h] at hext
  cases hext

theorem shownDir_ne_tmpPath (h : validateId id = .ok ()) : store.shownDir ≠ tmpPath (store.requestPath id) := by
  rw [tmpPath_shown h]
  exact UnixPath.child_ne_self.symm

theorem tmpPath_ne_workspaceFile (h : validateId id = .ok ()) :
    tmpPath (store.requestPath id) ≠ store.workspaceFile := by
  intro he
  have hext := congrArg extension he
  rw [extension_tmpPath h, extension_workspaceFile] at hext
  exact absurd hext (by decide)

theorem tmpPath_ne_requestsDir (h : validateId id = .ok ()) : tmpPath (store.requestPath id) ≠ store.requestsDir := by
  intro he
  have hext := congrArg extension he
  rw [extension_tmpPath h, requestsDir_eq, UnixPath.extension_of_noDot (by decide) (by decide)] at hext
  cases hext

theorem requestPath_injective {id' : String} (h : validateId id = .ok ()) (h' : validateId id' = .ok ())
    (he : store.requestPath id = store.requestPath id') : id = id' := by
  rw [requestPath_eq h, requestPath_eq h'] at he
  exact UnixPath.eq_of_ofText_append (UnixPath.child_injective he)

end

end WireSurge.Storage
