import DbusBroker.Dbus.Protocol
import DbusBroker.Lib.Forest

/-!
# The configuration parser

`launch/config.c`. The main file is parsed first, and the files that it includes one after the
other when they come up in a list. Every element becomes a node behind the last one of its file, and
the elements of an included file go behind the node of the include. What expat makes of a file is
an element with its text and its elements, for which the handlers are called in order. The
attributes of a node are kept as they are; only those of an include matter here.
-/

namespace DbusBroker.Config

/-- `CONFIG_NODE_*`. -/
inductive NodeType where
  | busconfig
  | user
  | bustype
  | fork
  | syslog
  | keepUmask
  | listen
  | pidfile
  | includedir
  | standardSessionServicedirs
  | standardSystemServicedirs
  | servicedir
  | servicehelper
  | auth
  | include
  | policy
  | limit
  | selinux
  | apparmor
  | allow
  | deny
  | associate
  deriving DecidableEq, Repr

/-- The elements that `config_parser_begin_fn` knows. -/
def nodeTypes : List (Bytes × NodeType) :=
  [(lit "busconfig", .busconfig), (lit "user", .user), (lit "type", .bustype), (lit "fork", .fork),
    (lit "syslog", .syslog), (lit "keep_umask", .keepUmask), (lit "listen", .listen), (lit "pidfile", .pidfile),
    (lit "includedir", .includedir), (lit "standard_session_servicedirs", .standardSessionServicedirs),
    (lit "standard_system_servicedirs", .standardSystemServicedirs), (lit "servicedir", .servicedir),
    (lit "servicehelper", .servicehelper), (lit "auth", .auth), (lit "include", .include), (lit "policy", .policy),
    (lit "limit", .limit), (lit "selinux", .selinux), (lit "apparmor", .apparmor), (lit "allow", .allow),
    (lit "deny", .deny), (lit "associate", .associate)]

/-- The type of a node that an element stands in; `busconfig` is the outermost element. -/
def NodeType.parent : NodeType → Option NodeType
  | .busconfig => none
  | .allow => some .policy
  | .deny => some .policy
  | .associate => some .selinux
  | _ => some .busconfig

/-- `ConfigPath`, with the paths of the files and directories that it comes from. -/
structure Path where
  path : Bytes
  isDir : Bool
  parents : List Bytes
  deriving DecidableEq, Repr

/-- The path is one of those that it comes from, as `config_parser_include` compares them. -/
def Path.recurs (file : Path) : Bool := file.parents.any (file.path == ·)

/-- What stands in front of the last slash of a path. -/
def dirname (path : Bytes) : Bytes := ((path.reverse.dropWhile (· != byte '/')).drop 1).reverse

/-- `config_path_new`: a relative path is behind the given directory, or that of the parent. -/
def configPathNew (parent : Option Path) (base : Option Bytes) (path : Bytes) : Path :=
  let base :=
    if path.head? = some (byte '/') then []
    else
      match base, parent with
      | some base, _ => base
      | none, some parent => if parent.isDir then parent.path else dirname parent.path
      | none, none => []
  { path := if base = [] then path else base ++ [byte '/'] ++ path
    isDir := false
    parents := parent.elim [] fun parent => parent.path :: parent.parents }

/-- `config_path_new_dir`. -/
def configPathNewDir (parent : Option Path) (path : Bytes) : Path := { configPathNew parent none path with isDir := true }

/-- `ConfigNode`: `path` is the file that an element is in, `target` the file or directory that is included. -/
structure Node where
  parent : Option ℕ
  nChildren : ℕ
  type : NodeType
  attrs : List (Bytes × Bytes)
  cdata : Bytes
  path : Option Path
  target : Option Path
  deriving DecidableEq, Repr

/-- The attributes of an include. -/
structure IncludeFlags where
  ignoreMissing : Bool
  ifSelinuxEnabled : Bool
  selinuxRootRelative : Bool
  deriving DecidableEq, Repr

/-- An attribute that is `yes` or `no`, or as before. -/
def attrFlag (value : Bytes) (before : Bool) : Bool :=
  if value = lit "yes" then true else if value = lit "no" then false else before

/-- `config_parser_attrs_include`. -/
def configParserAttrsInclude (attrs : List (Bytes × Bytes)) : IncludeFlags :=
  attrs.foldl (fun flags attr =>
    if attr.1 = lit "ignore_missing" then { flags with ignoreMissing := attrFlag attr.2 flags.ignoreMissing }
    else if attr.1 = lit "if_selinux_enabled" then
      { flags with ifSelinuxEnabled := attrFlag attr.2 flags.ifSelinuxEnabled }
    else if attr.1 = lit "selinux_root_relative" then
      { flags with selinuxRootRelative := attrFlag attr.2 flags.selinuxRootRelative }
    else flags) ⟨false, false, false⟩

/-- The content of an element: text and elements, in order. -/
inductive Xml where
  | nil
  | text (data : Bytes) (rest : Xml)
  | element (name : Bytes) (attrs : List (Bytes × Bytes)) (content rest : Xml)
  deriving DecidableEq, Repr

/-- A file, which has one element. -/
structure XmlDocument where
  name : Bytes
  attrs : List (Bytes × Bytes)
  content : Xml
  deriving DecidableEq, Repr

/-- What there is in a file or in its place: `ENOENT` or `ENOTDIR`, `EACCES` or `EPERM`, another error, something that expat does not
parse, or a document. -/
inductive FileContent where
  | missing
  | denied
  | failed
  | invalid
  | document (document : XmlDocument)

/-- A directory: `ENOENT` or `ENOTDIR`, an error, or what `fs_dir_list` lists. -/
inductive DirContent where
  | missing
  | failed
  | entries (names : List Bytes)

/-- A system with a finite set of configuration files. Many paths may lead to one file. -/
structure Files where
  realpath : Bytes → Bytes
  content : Bytes → FileContent
  dir : Bytes → DirContent
  selinuxEnabled : Bool
  selinuxPolicyRoot : Option Bytes
  documents : List Bytes
  finite : ∀ name document, content name = .document document → name ∈ documents

/-- What there is at a path. -/
def Files.file (files : Files) (path : Bytes) : FileContent := files.content (files.realpath path)

/-- The files and directories that a path comes from. -/
def Path.chain (files : Files) (file : Path) : List Bytes := file.parents.map files.realpath

/-- The errors of the parser: `CONFIG_E_INVALID`, and a negative error code. -/
inductive Error where
  | invalid
  | failed
  deriving DecidableEq, Repr

/-- `ConfigRoot` and `ConfigState`. Nodes are referred to by their place in the order in which they were made. -/
structure State where
  nodes : List Node
  nodeList : List ℕ
  includeList : List ℕ
  file : Path
  current : ℕ
  last : ℕ
  nDepth : ℕ
  nFailed : ℕ
  error : Option Error
  assertFailed : Bool

/-- `c_list_link_after`. -/
def linkAfter (last new : ℕ) : List ℕ → List ℕ
  | [] => []
  | a :: rest => if a = last then a :: new :: rest else a :: linkAfter last new rest

/-- `config_node_new`, linked behind the last node. -/
def State.addNode (s : State) (type : NodeType) (attrs : List (Bytes × Bytes)) (path target : Option Path) : State :=
  { s with
    nodes := (s.nodes.modify s.current fun node => { node with nChildren := node.nChildren + 1 }) ++
      [⟨some s.current, 0, type, attrs, [], path, target⟩]
    nodeList := linkAfter s.last s.nodes.length s.nodeList
    last := s.nodes.length }

/-- An element is known and stands where it belongs. -/
def nodeAccepts (name : Bytes) (parent : NodeType) (outermost : Bool) : Option NodeType :=
  (nodeTypes.lookup name).filter fun type => type.parent.elim outermost (· == parent)

/-- `config_parser_begin_fn`. -/
def configParserBegin (s : State) (name : Bytes) (attrs : List (Bytes × Bytes)) : State :=
  if s.error.isSome then s
  else if 0 < s.nFailed then { s with nFailed := s.nFailed + 1 }
  else
    match s.nodes[s.current]? with
    | none => { s with assertFailed := true }
    | some node =>
      match nodeAccepts name node.type (s.nDepth == 0) with
      | none => { s with nFailed := s.nFailed + 1 }
      | some type => { s.addNode type attrs (some s.file) none with current := s.nodes.length, nDepth := s.nDepth + 1 }

/-- `config_parser_blob_fn`. -/
def configParserBlob (s : State) (data : Bytes) : State :=
  if s.error.isSome || 0 < s.nFailed then s
  else { s with nodes := s.nodes.modify s.current fun node => { node with cdata := node.cdata ++ data } }

/-- The name of a file of a directory is behind others and ends in `.conf`. -/
def isConfName (name : Bytes) : Bool := 5 < name.length && (lit ".conf").isSuffixOf name

/-- Queue an include. -/
def State.queue (s : State) (a : ℕ) : State := { s with includeList := s.includeList ++ [a] }

/-- One include of a directory. -/
def State.addInclude (s : State) (dir : Path) (name : Bytes) : State :=
  (s.addNode .include [] none (some (configPathNew (some dir) none name))).queue s.nodes.length

/-- Set what the current node includes. -/
def State.setTarget (s : State) (target : Path) : State :=
  { s with nodes := s.nodes.modify s.current fun node => { node with target := some target } }

/-- What `config_parser_end_fn` does with an element of a type. -/
def configParserEndNode (files : Files) (s : State) (node : Node) : Except Error State :=
  match node.type with
  | .includedir =>
    let dir := configPathNewDir (some s.file) node.cdata
    match files.dir dir.path with
    | .missing => .ok (s.setTarget dir)
    | .failed => .error .failed
    | .entries names => .ok ((names.filter isConfName).foldl (·.addInclude dir ·) (s.setTarget dir))
  | .include =>
    let base := if (configParserAttrsInclude node.attrs).selinuxRootRelative then files.selinuxPolicyRoot else none
    .ok ((s.setTarget (configPathNew (some s.file) base node.cdata)).queue s.current)
  | _ => .ok s

/-- `config_parser_end_fn`. -/
def configParserEnd (files : Files) (s : State) : State :=
  if s.error.isSome then s
  else if 0 < s.nFailed then { s with nFailed := s.nFailed - 1 }
  else
    match s.nodes[s.current]? with
    | none => { s with assertFailed := true }
    | some node =>
      match configParserEndNode files s node with
      | .error error => { s with error := some error }
      | .ok s =>
        { s with
          assertFailed := s.assertFailed || s.nDepth == 0 || node.parent.isNone
          nDepth := s.nDepth - 1
          current := node.parent.getD s.current }

/-- The handlers that expat calls for the content of an element. -/
def Xml.run (files : Files) : State → Xml → State
  | s, .nil => s
  | s, .text data rest => rest.run files (configParserBlob s data)
  | s, .element name attrs content rest =>
    rest.run files (configParserEnd files (content.run files (configParserBegin s name attrs)))

/-- The handlers that expat calls for a file. -/
def XmlDocument.run (files : Files) (s : State) (document : XmlDocument) : State :=
  (Xml.element document.name document.attrs document.content .nil).run files s

/-- `config_parser_include`. -/
def configParserInclude (files : Files) (s : State) (a : ℕ) : Except Error State :=
  match (s.nodes[a]?).bind fun node => node.target.map fun target => (node, target) with
  | none => .ok { s with assertFailed := true }
  | some (node, target) =>
    let s := { s with file := target, current := a, last := a, nDepth := 0, nFailed := 0, error := none }
    let flags := configParserAttrsInclude node.attrs
    if flags.ifSelinuxEnabled && !files.selinuxEnabled then .ok s
    else if target.recurs then .ok s
    else
      match files.file target.path with
      | .missing => if flags.ignoreMissing then .ok s else .error .invalid
      | .denied => .error .invalid
      | .failed => .error .failed
      | .invalid => .error .invalid
      | .document document =>
        let s := document.run files s
        match s.error with
        | some error => .error error
        | none => .ok { s with assertFailed := s.assertFailed || s.nDepth != 0 || s.nFailed != 0 }

/-- The loop of `config_parser_read`. -/
def configParserReadLoop (files : Files) : ℕ → State → Option (Except Error State)
  | 0, _ => none
  | fuel + 1, s =>
    match s.includeList with
    | [] => some (.ok s)
    | a :: rest =>
      match configParserInclude files { s with includeList := rest } a with
      | .error error => some (.error error)
      | .ok s => configParserReadLoop files fuel s

/-- The include of the main file. -/
def mainInclude (path : Bytes) : Node := ⟨none, 0, .include, [], [], none, some (configPathNew none none path)⟩

/-- `config_parser_read`. -/
def configParserRead (files : Files) (fuel : ℕ) (path : Bytes) : Option (Except Error State) :=
  configParserReadLoop files fuel ⟨[mainInclude path], [0], [0], configPathNew none none path, 0, 0, 0, 0, none, false⟩

/-- The lists of a configuration while it is freed, and whether the assertions held. -/
structure Teardown where
  nodes : List Node
  nodeList : List ℕ
  includeList : List ℕ
  asserts : Bool

/-- `config_node_free`. -/
def configNodeFree (t : Teardown) (a : ℕ) : Teardown :=
  match t.nodes[a]? with
  | none => { t with asserts := false }
  | some node =>
    { nodes := node.parent.elim t.nodes fun p =>
        t.nodes.modify p fun parent => { parent with nChildren := parent.nChildren - 1 }
      nodeList := t.nodeList.erase a
      includeList := t.includeList.erase a
      asserts := t.asserts && node.nChildren == 0 }

/-- `config_root_free`: the last node is freed until there is none. -/
def configRootFree (s : State) : Teardown :=
  let t := s.nodeList.reverse.foldl configNodeFree ⟨s.nodes, s.nodeList, s.includeList, true⟩
  { t with asserts := t.asserts && t.nodeList.isEmpty && t.includeList.isEmpty }

end DbusBroker.Config
