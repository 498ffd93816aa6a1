import DuckdbHdfs.Glob.Expansions
import DuckdbHdfs.MetaFunctions

/-!
# Laws of listings

What the options of a walk can change of its result, and what braces mean.  Neither the parallelism
nor `skip_permission_errors` changes the rows that a walk returns; skipping only turns a permission
error below the root into rows.  A pattern with braces returns the union of what its expansions
return.
-/

namespace DuckdbHdfs

universe u

open Glob

variable {τ : Type u} {σ : Type*}

section Options

variable {server : NameNode} {glob : Bool} {url : Text} {maxParallelism maxParallelism' : Int}
  {options options' : WalkOptions} {entry : FileStatus} {e : HdfsError}

theorem due_urlRequest_congr (same : options.includeHidden = options'.includeHidden) :
    (urlRequest glob url maxParallelism options).Due server entry ↔
      (urlRequest glob url maxParallelism' options').Due server entry := by
  cases glob with
  | true => simp only [ListRequest.Due, urlRequest, same]
  | false =>
      simp only [ListRequest.Due, urlRequest, listed_iff_kept, streamKeeps, same]

/-- To skip more errors makes no other one fatal, and those it spares are permission errors. -/
theorem fatal_urlRequest_relaxed (same : options.includeHidden = options'.includeHidden)
    (relaxed : options.skipPermissionErrors = true → options'.skipPermissionErrors = true) :
    ((urlRequest glob url maxParallelism' options').Fatal server e →
        (urlRequest glob url maxParallelism options).Fatal server e) ∧
      ((urlRequest glob url maxParallelism options).Fatal server e →
        (urlRequest glob url maxParallelism' options').Fatal server e ∨
          classify e = .permission) := by
  cases glob with
  | false =>
      have root_only : ∀ maxParallelism options,
          (urlRequest false url maxParallelism options).Fatal server e ↔
            server.listStatus (cStr (parseHdfsPath url).2) = .error e := by
        simp [ListRequest.Fatal, urlRequest, ListingFatal]
      rw [root_only, root_only]
      exact ⟨id, .inl⟩
  | true =>
      simp only [ListRequest.Fatal, urlRequest, same]
      constructor
      · rintro ⟨plan, parsed, stat | ⟨path, states, reached, failed, present, surfaces⟩⟩
        · exact ⟨plan, parsed, .inl stat⟩
        · refine ⟨plan, parsed, .inr ⟨path, states, reached, failed, present, ?_⟩⟩
          rintro ⟨below, skips, permission⟩
          exact surfaces ⟨below, relaxed skips, permission⟩
      · rintro ⟨plan, parsed, stat | ⟨path, states, reached, failed, present, -⟩⟩
        · exact .inl ⟨plan, parsed, .inl stat⟩
        · by_cases permission : classify e = .permission
          · exact .inr permission
          · refine .inl ⟨plan, parsed, .inr ⟨path, states, reached, failed, present, ?_⟩⟩
            exact fun spared => permission spared.2.2

end Options

section Rows

variable {db : Database τ} {entries entries' : List FileStatus} {rows rows' : List (MetaRow τ)}
  {authority : Text}

theorem rows_perm (same : entries.Perm entries')
    (all : List.Forall₂ (fun entry row => metaRow db (toEntry authority entry) = .ok row) entries
      rows)
    (all' : List.Forall₂ (fun entry row => metaRow db (toEntry authority entry) = .ok row) entries'
      rows') : rows.Perm rows' := by
  have rows_eq : ∀ {entries : List FileStatus} {rows : List (MetaRow τ)},
      List.Forall₂ (fun entry row => metaRow db (toEntry authority entry) = .ok row) entries rows →
        entries.map (fun entry => metaRow db (toEntry authority entry)) = rows.map .ok := by
    intro entries rows all
    rwa [← List.forall₂_eq_eq_eq, List.forall₂_map_left_iff, List.forall₂_map_right_iff]
  refine (List.map_perm_map_iff (f := (Except.ok : _ → Except Thrown _))
    fun _ _ => Except.ok.inj).mp ?_
  rw [← rows_eq all, ← rows_eq all']
  exact same.map _

end Rows

section Relaxed

variable {context context' : MetaContext σ} {db : Database τ} {server : NameNode} {path : Text}
  {namedParameters namedParameters' : List (Text × Option Bool)}

/-- Where another scan, with the same entries due, has returned rows, only an error of the walk can
make a scan fail. -/
theorem exists_fatal_of_hdfsLs {thrown : Thrown} {calls calls' : Nat} {rows' : List (MetaRow τ)}
    (hidden_eq : (lsRequest context.settings path namedParameters).options.includeHidden =
      (lsRequest context'.settings path namedParameters').options.includeHidden)
    (connected : ∃ client, context.bridge.get 0 = .ok client)
    (fed : context.bridge.FedBy db.standardVectorSize (fun _ => server)
      (lsRequest context.settings path namedParameters))
    (fed' : context'.bridge.FedBy db.standardVectorSize (fun _ => server)
      (lsRequest context'.settings path namedParameters'))
    (threw : hdfsLs context db path namedParameters calls = some (.error thrown))
    (listed : hdfsLs context' db path namedParameters' calls' = some (.ok rows')) :
    ∃ e, (lsRequest context.settings path namedParameters).Fatal server e := by
  obtain ⟨stream, entries, scanned, all⟩ := exists_scanned_of_hdfsLs fed' listed
  rcases cause_of_hdfsLs fed threw with ⟨message, unconnected⟩ | ⟨globs, e, invalid⟩ | ⟨e, fatal⟩ |
    ⟨stream, entry, thrown, -, due, failed⟩
  · obtain ⟨client, got⟩ := connected
    simp [got] at unconnected
  · obtain ⟨plan, parsed⟩ := parses_of_hdfsLs fed' listed globs
    rw [hidden_eq] at invalid
    exact absurd (invalid.symm.trans parsed) (by simp)
  · exact ⟨e, fatal⟩
  · have mem := scanned.complete rfl entry ((due_urlRequest_congr hidden_eq).mp due)
    obtain ⟨row, -, given⟩ := all.flip.exists_left_of_mem mem
    exact absurd (given.symm.trans failed) (by simp)

/-- While nothing changes, two scans of `hdfs_ls` that agree on hidden entries, of which the second
one may skip more permission errors, come to an end; where the first one returns rows the second
one returns the same rows, whatever their settings for the parallelism.  Only a permission error
can make the first one fail where the second one does not. -/
theorem hdfsLs_relaxed
    (hidden_eq : (lsRequest context.settings path namedParameters).options.includeHidden =
      (lsRequest context'.settings path namedParameters').options.includeHidden)
    (relaxed :
      (lsRequest context.settings path namedParameters).options.skipPermissionErrors = true →
        (lsRequest context'.settings path namedParameters').options.skipPermissionErrors = true)
    (connected : ∃ client, context.bridge.get 0 = .ok client)
    (connected' : ∃ client, context'.bridge.get 0 = .ok client)
    (fed : context.bridge.FedBy db.standardVectorSize (fun _ => server)
      (lsRequest context.settings path namedParameters))
    (fed' : context'.bridge.FedBy db.standardVectorSize (fun _ => server)
      (lsRequest context'.settings path namedParameters')) :
    ∃ outcome outcome',
      (∃ enough, ∀ calls, enough ≤ calls →
        hdfsLs context db path namedParameters calls = some outcome ∧
          hdfsLs context' db path namedParameters' calls = some outcome') ∧
      (∀ rows, outcome = .ok rows → ∃ rows', outcome' = .ok rows' ∧ rows.Perm rows') ∧
      ∀ rows' thrown, outcome' = .ok rows' → outcome = .error thrown →
        ∃ e, (lsRequest context.settings path namedParameters).Fatal server e ∧
          classify e = .permission := by
  obtain ⟨outcome, enough, ends⟩ := exists_outcome_of_hdfsLs fed
  obtain ⟨outcome', enough', ends'⟩ := exists_outcome_of_hdfsLs fed'
  have ended := ends enough le_rfl
  have ended' := ends' enough' le_rfl
  refine ⟨outcome, outcome', ⟨max enough enough', fun calls many => ?_⟩, ?_, ?_⟩
  · exact ⟨ends calls ((le_max_left _ _).trans many), ends' calls ((le_max_right _ _).trans many)⟩
  · rintro rows rfl
    obtain ⟨stream, entries, scanned, all⟩ := exists_scanned_of_hdfsLs fed ended
    cases outcome' with
    | ok rows' =>
        obtain ⟨stream', entries', scanned', all'⟩ := exists_scanned_of_hdfsLs fed' ended'
        refine ⟨rows', rfl, rows_perm ?_ all all'⟩
        refine (List.perm_ext_iff_of_nodup (.of_map _ scanned.nodup)
          (.of_map _ scanned'.nodup)).mpr fun entry => ?_
        have due_iff : (lsRequest context.settings path namedParameters).Due server entry ↔
            (lsRequest context'.settings path namedParameters').Due server entry :=
          due_urlRequest_congr hidden_eq
        exact ⟨fun mem => scanned'.complete rfl entry (due_iff.mp (scanned.sound entry mem)),
          fun mem => scanned.complete rfl entry (due_iff.mpr (scanned'.sound entry mem))⟩
    | error thrown =>
        obtain ⟨e, fatal⟩ :=
          exists_fatal_of_hdfsLs hidden_eq.symm connected' fed' fed ended' ended
        exact absurd ((fatal_urlRequest_relaxed hidden_eq relaxed).1 fatal)
          (scanned.clean_iff.mp rfl e)
  · rintro rows' thrown rfl rfl
    obtain ⟨stream', entries', scanned', -⟩ := exists_scanned_of_hdfsLs fed' ended'
    obtain ⟨e, fatal⟩ := exists_fatal_of_hdfsLs hidden_eq connected fed fed' ended ended'
    rcases (fatal_urlRequest_relaxed hidden_eq relaxed).2 fatal with fatal' | permission
    · exact absurd fatal' (scanned'.clean_iff.mp rfl e)
    · exact ⟨e, fatal, permission⟩

/-- `/d/*` with one listing at a time and errors skipped. -/
def relaxedSample : ListRequest :=
  lsRequest ⟨some 1, none, none⟩ "hdfs://nn/d/*".toList
    [("skip_permission_errors".toList, some true)]

/-- `/d/*` as it is, and with one listing at a time and errors skipped. -/
theorem hdfsLs_relaxed_sample :
    ∃ (context context' : MetaContext Unit) (rows rows' : List (MetaRow Int64)) (calls : Nat),
      hdfsLs context .microseconds "hdfs://nn/d/*".toList [] calls = some (.ok rows) ∧
      hdfsLs context' .microseconds "hdfs://nn/d/*".toList
        [("skip_permission_errors".toList, some true)] calls = some (.ok rows') ∧
      rows.Perm rows' := by
  obtain ⟨bridge, connects, fed⟩ := MetaContext.exists_sample
  obtain ⟨bridge', connects', fed'⟩ := ListBridge.exists_fedBy
    Database.microseconds.standardVectorSize (fun _ => Snapshot.sample.nameNode) relaxedSample
  let context' : MetaContext Unit :=
    { MetaContext.sample bridge' with settings := ⟨some 1, none, none⟩ }
  have hidden_eq : (lsRequest ⟨none, none, none⟩ "hdfs://nn/d/*".toList []).options.includeHidden =
      relaxedSample.options.includeHidden := by decide +kernel
  have relaxed : relaxedSample.options.skipPermissionErrors = true := by decide +kernel
  obtain ⟨rows, -, some_calls, returned⟩ := MetaContext.exists_sampleRows connects fed
  obtain ⟨outcome, outcome', ⟨enough, ends⟩, same, -⟩ :=
    @hdfsLs_relaxed _ _ (.sample bridge) context' _ _ "hdfs://nn/d/*".toList [] _ hidden_eq
      (fun _ => relaxed) ⟨0, connects 0⟩ ⟨0, connects' 0⟩ fed fed'
  have returned := returned (max some_calls enough) (le_max_left _ _)
  obtain ⟨ended, ended'⟩ := ends (max some_calls enough) (le_max_right _ _)
  obtain rfl := Option.some.inj (ended.symm.trans returned)
  obtain ⟨rows', rfl, perm⟩ := same rows rfl
  exact ⟨_, context', rows, rows', _, returned, ended', perm⟩

end Relaxed

section Braces

variable {db : Database τ} {snapshot : Snapshot} {settings : Settings} {path : Text}
  {expansions : List Text} {bridge : ListBridge} {bridges : Text → ListBridge}

theorem matches_iff_exists_expansion {pattern : Text} {includeHidden : Bool} {names : List Text}
    (expanded_eq : expandBraces pattern = .ok expansions) :
    Matches pattern includeHidden names ↔
      ∃ expanded ∈ expansions, Matches expanded includeHidden names := by
  simp only [Matches, expanded_eq, Except.ok.injEq, exists_eq_left']
  refine exists_congr fun expanded => and_congr_right fun mem => ?_
  rw [expandBraces_of_mem expanded_eq mem]
  simp

/-- The URL of an expansion leads to the connection of the pattern, and to the expansion. -/
theorem parseHdfsPath_expansion (scheme : hdfsScheme <+: path) (named : path ≠ hdfsScheme)
    (expanded_eq : expandBraces (cStr (parseHdfsPath path).2) = .ok expansions)
    {expanded : Text} (mem : expanded ∈ expansions) :
    (parseHdfsPath (makeUrl (parseHdfsPath path).1 expanded)).1 = (parseHdfsPath path).1 ∧
      cStr (parseHdfsPath (makeUrl (parseHdfsPath path).1 expanded)).2 = expanded := by
  have absolute := head?_expansion expanded_eq mem (head?_cStr (head?_parseHdfsPath scheme))
  have plain : '\x00' ∉ expanded := fun nul =>
    nul_not_mem_cStr _ (expansion_subset expanded_eq mem nul)
  rw [parseHdfsPath_makeUrl (isAuthority_parseHdfsPath_iff.mpr named) absolute]
  exact ⟨rfl, cStr_of_plain plain⟩

theorem nodup_urls {authority : Text} {nodes : List FileStatus} {files : List (OpenFileInfo τ)}
    (isAuthority : IsAuthority authority)
    (plain : ∀ entry ∈ snapshot.entries, '\x00' ∉ entry.path) (nodup : nodes.Nodup)
    (known : ∀ node ∈ nodes, node ∈ snapshot.nodes)
    (all : List.Forall₂ (fun node file => fileOf db authority node = .ok file) nodes files) :
    (files.map OpenFileInfo.path).Nodup := by
  have leads_back : ∀ node ∈ nodes,
      parseHdfsPath (toEntry authority node).url = (authority, node.path) := by
    intro node mem
    obtain ⟨absolute, node_plain⟩ := Snapshot.plain_of_mem_nodes plain (known node mem)
    simp only [toEntry, makeHdfsEntry, statusToEntry, toCString_of_plain node_plain]
    exact parseHdfsPath_makeUrl isAuthority absolute
  rw [all.map_eq_map fun _ _ => path_of_openFileInfo, List.nodup_map_iff_inj_on nodup]
  intro node mem node' mem' same
  have same_path : node.path = node'.path :=
    (Prod.mk.inj ((leads_back node mem).symm.trans (same ▸ leads_back node' mem'))).2
  exact List.inj_on_of_nodup_map Snapshot.nodes_nodup (known node mem) (known node' mem')
    (congrArg splitPath same_path)

/-- `Glob` of the URL of one expansion. -/
theorem HdfsFileSystem.exists_glob_expansion {expanded : Text} {plan : GlobPlan}
    (scheme : hdfsScheme <+: path) (named : path ≠ hdfsScheme)
    (expanded_eq : expandBraces (cStr (parseHdfsPath path).2) = .ok expansions)
    (parsed : GlobPlan.parse (cStr (parseHdfsPath path).2) settings.walkOptions.includeHidden =
      .ok plan)
    (mem : expanded ∈ expansions) (connected : ∃ client, bridge.get 0 = .ok client)
    (fed : bridge.FedBy db.standardVectorSize (fun _ => snapshot.nameNode)
      (globRequest settings (makeUrl (parseHdfsPath path).1 expanded)))
    (timed : snapshot.Timed db fun node => node.isdir = false) :
    ∃ part : List (OpenFileInfo τ),
      (∃ enough, ∀ calls, enough ≤ calls →
        glob bridge db settings (makeUrl (parseHdfsPath path).1 expanded) calls =
          some (.ok part)) ∧
      ∀ file, file ∈ part ↔ ∃ node, (node ∈ snapshot.nodes ∧ node.isdir = false ∧
        Matches expanded settings.walkOptions.includeHidden node.names) ∧
          fileOf db (parseHdfsPath path).1 node = .ok file := by
  obtain ⟨authority_eq, pattern_eq⟩ := parseHdfsPath_expansion scheme named expanded_eq mem
  obtain ⟨plan', parsed'⟩ := GlobPlan.exists_parse_of_mem parsed expanded_eq mem
  obtain ⟨part, nodes, ends, -, mem_iff, all⟩ :=
    exists_glob connected fed timed (pattern_eq ▸ parsed')
  rw [pattern_eq] at mem_iff
  rw [authority_eq] at all
  refine ⟨part, ends, fun file => ?_⟩
  simp only [all.mem_iff_of_eq_ok, mem_iff]

/-- `Glob` of a pattern with braces returns the union of what it returns for the expansions: a file
that several of them match is returned once. -/
theorem HdfsFileSystem.glob_braces (scheme : hdfsScheme <+: path) (named : path ≠ hdfsScheme)
    (expanded_eq : expandBraces (cStr (parseHdfsPath path).2) = .ok expansions)
    {plan : GlobPlan}
    (parsed : GlobPlan.parse (cStr (parseHdfsPath path).2) settings.walkOptions.includeHidden =
      .ok plan)
    (connected : ∃ client, bridge.get 0 = .ok client)
    (connected' : ∀ expanded ∈ expansions, ∃ client, (bridges expanded).get 0 = .ok client)
    (fed : bridge.FedBy db.standardVectorSize (fun _ => snapshot.nameNode)
      (globRequest settings path))
    (fed' : ∀ expanded ∈ expansions, (bridges expanded).FedBy db.standardVectorSize
      (fun _ => snapshot.nameNode) (globRequest settings (makeUrl (parseHdfsPath path).1 expanded)))
    (timed : snapshot.Timed db fun node => node.isdir = false) :
    ∃ (files : List (OpenFileInfo τ)) (parts : Text → List (OpenFileInfo τ))
        (nodes : List FileStatus),
      (∃ enough, ∀ calls, enough ≤ calls →
        glob bridge db settings path calls = some (.ok files)) ∧
      (∀ expanded ∈ expansions, ∃ enough, ∀ calls, enough ≤ calls →
        glob (bridges expanded) db settings (makeUrl (parseHdfsPath path).1 expanded) calls =
          some (.ok (parts expanded))) ∧
      (∀ file, file ∈ files ↔ ∃ expanded ∈ expansions, file ∈ parts expanded) ∧
      nodes.Nodup ∧
      (∀ node, node ∈ nodes ↔ node ∈ snapshot.nodes ∧ node.isdir = false ∧
        ∃ expanded ∈ expansions,
          Matches expanded settings.walkOptions.includeHidden node.names) ∧
      List.Forall₂ (fun node file => fileOf db (parseHdfsPath path).1 node = .ok file) nodes
        files ∧
      ((∀ entry ∈ snapshot.entries, '\x00' ∉ entry.path) →
        (files.map OpenFileInfo.path).Nodup) := by
  choose! parts each using fun (expanded : Text) (mem : expanded ∈ expansions) =>
    exists_glob_expansion scheme named expanded_eq parsed mem (connected' expanded mem)
      (fed' expanded mem) timed
  obtain ⟨files, nodes, ends, nodup, mem_iff, all⟩ := exists_glob connected fed timed parsed
  simp only [matches_iff_exists_expansion expanded_eq] at mem_iff
  refine ⟨files, parts, nodes, ends, fun expanded mem => (each expanded mem).1, fun file => ?_,
    nodup, mem_iff, all, fun plain => ?_⟩
  · rw [all.mem_iff_of_eq_ok]
    constructor
    · rintro ⟨node, node_mem, given⟩
      obtain ⟨there, isFile, expanded, mem, matched⟩ := (mem_iff node).mp node_mem
      exact ⟨expanded, mem, ((each expanded mem).2 file).mpr
        ⟨node, ⟨there, isFile, matched⟩, given⟩⟩
    · rintro ⟨expanded, mem, file_mem⟩
      obtain ⟨node, ⟨there, isFile, matched⟩, given⟩ := ((each expanded mem).2 file).mp file_mem
      exact ⟨node, (mem_iff node).mpr ⟨there, isFile, expanded, mem, matched⟩, given⟩
  · exact nodup_urls (isAuthority_parseHdfsPath_iff.mpr named) plain nodup
      (fun node mem => ((mem_iff node).mp mem).1) all

/-- The plan of `/d/{x,*}`. -/
def bracesPlan : GlobPlan where
  patterns := [[.literal ['d'], .literal ['x']], [.literal ['d'], .pattern ['*']]]
  root := "/d".toList
  initial := [⟨0, 1⟩, ⟨1, 1⟩]
  emitRoot := false
  includeHidden := false

/-- `/d/x` and `/d/*` both match the file in `/d`, and `/d/{x,*}` returns it once. -/
theorem HdfsFileSystem.glob_braces_sample :
    ∃ (bridge : ListBridge) (bridges : Text → ListBridge)
        (files : List (OpenFileInfo Int64)) (parts : Text → List (OpenFileInfo Int64))
        (calls : Nat),
      glob bridge .microseconds ⟨none, none, none⟩ "hdfs://nn/d/{x,*}".toList calls =
        some (.ok files) ∧
      glob (bridges "/d/x".toList) .microseconds ⟨none, none, none⟩ "hdfs://nn/d/x".toList calls =
        some (.ok (parts "/d/x".toList)) ∧
      glob (bridges "/d/*".toList) .microseconds ⟨none, none, none⟩ "hdfs://nn/d/*".toList calls =
        some (.ok (parts "/d/*".toList)) ∧
      (∀ file, file ∈ files ↔
        ∃ expanded ∈ ["/d/x".toList, "/d/*".toList], file ∈ parts expanded) ∧
      files.map OpenFileInfo.path = ["hdfs://nn/d/x".toList] := by
  have expanded_eq : expandBraces (cStr (parseHdfsPath "hdfs://nn/d/{x,*}".toList).2) =
      .ok ["/d/x".toList, "/d/*".toList] := by decide +kernel
  have parsed : GlobPlan.parse (cStr (parseHdfsPath "hdfs://nn/d/{x,*}".toList).2)
      (Settings.walkOptions ⟨none, none, none⟩).includeHidden = .ok bracesPlan := by decide +kernel
  have fed_each := fun request => ListBridge.exists_fedBy
    Database.microseconds.standardVectorSize (fun _ => Snapshot.sample.nameNode) request
  obtain ⟨bridge, connects, fed⟩ :=
    fed_each (globRequest ⟨none, none, none⟩ "hdfs://nn/d/{x,*}".toList)
  choose bridges connects' fed' using fun expanded =>
    fed_each (globRequest ⟨none, none, none⟩
      (makeUrl (parseHdfsPath "hdfs://nn/d/{x,*}".toList).1 expanded))
  obtain ⟨files, parts, nodes, ⟨enough, ends⟩, each, union, nodup, mem_iff, all, -⟩ :=
    glob_braces (by decide) (by decide) expanded_eq parsed ⟨0, connects 0⟩
      (fun expanded _ => ⟨0, connects' expanded 0⟩) fed (fun expanded _ => fed' expanded)
      (sample_timed _)
  obtain ⟨enough₁, ends₁⟩ := each "/d/x".toList (by simp)
  obtain ⟨enough₂, ends₂⟩ := each "/d/*".toList (by simp)
  refine ⟨bridge, bridges, files, parts, max enough (max enough₁ enough₂),
    ends _ (by omega), ends₁ _ (by omega), ends₂ _ (by omega), union, ?_⟩
  simp only [← matches_iff_exists_expansion expanded_eq] at mem_iff
  rw [sample_files parsed (by decide +kernel) (by decide +kernel) nodup mem_iff all]
  rfl

end Braces

end DuckdbHdfs
