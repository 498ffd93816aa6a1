import DuckdbHdfs.Entries

/-!
# URLs

`MakeUrl` puts an authority back in front of a path, and `ParseHdfsPath` takes it off again.  The
two agree for every authority a URL can have; only the bare scheme is taken for an authority
although it names no host.
-/

namespace DuckdbHdfs

/-- The scheme of an HDFS URL. -/
def hdfsScheme : Text :=
  "hdfs://".toList

/-- What an authority should be: empty for the default file system, or the scheme with a host. -/
inductive IsAuthority : Text → Prop
  | default : IsAuthority []
  | host {host : Text} (nonempty : host ≠ []) (no_slash : '/' ∉ host) :
      IsAuthority (hdfsScheme ++ host)

variable {authority path host : Text}

theorem IsAuthority.eq_or (isAuthority : IsAuthority authority) :
    authority = [] ∨ ∃ host, host ≠ [] ∧ authority = hdfsScheme ++ host := by
  cases isAuthority with
  | default => exact .inl rfl
  | host nonempty _ => exact .inr ⟨_, nonempty, rfl⟩

theorem hdfsScheme_ne_nil : hdfsScheme ≠ [] := by
  decide

theorem parseHdfsPath_eq (path : Text) :
    parseHdfsPath path =
      if hdfsScheme <+: path then
        let rest := path.drop hdfsScheme.length
        let host := rest.takeWhile (· ≠ '/')
        let hdfsPath := rest.dropWhile (· ≠ '/')
        if hdfsPath = [] then
          (path, ['/'])
        else if host = [] then
          ([], hdfsPath)
        else
          (hdfsScheme ++ host, hdfsPath)
      else
        ([], path) :=
  rfl

theorem parseHdfsPath_of_foreign (foreign : ¬hdfsScheme <+: path) :
    parseHdfsPath path = ([], path) := by
  rw [parseHdfsPath_eq, if_neg foreign]

theorem parseHdfsPath_append {rest : Text} (no_slash : '/' ∉ host) :
    parseHdfsPath (hdfsScheme ++ (host ++ '/' :: rest)) =
      (if host = [] then [] else hdfsScheme ++ host, '/' :: rest) := by
  have plain : ∀ c ∈ host, (decide (c ≠ '/')) = true := fun c mem => by
    simpa using fun equality : c = '/' => no_slash (equality ▸ mem)
  have host_eq : (host ++ '/' :: rest).takeWhile (· ≠ '/') = host := by
    rw [List.takeWhile_append_of_pos plain]
    simp
  have path_eq : (host ++ '/' :: rest).dropWhile (· ≠ '/') = '/' :: rest := by
    rw [List.dropWhile_append_of_pos plain]
    simp
  rw [parseHdfsPath_eq, if_pos (List.prefix_append _ _), List.drop_left]
  simp only [host_eq, path_eq]
  rw [if_neg (by simp)]
  split <;> rfl

theorem parseHdfsPath_of_no_slash (no_slash : '/' ∉ host) :
    parseHdfsPath (hdfsScheme ++ host) = (hdfsScheme ++ host, ['/']) := by
  have plain : ∀ c ∈ host, (decide (c ≠ '/')) = true := fun c mem => by
    simpa using fun equality : c = '/' => no_slash (equality ▸ mem)
  have path_eq : host.dropWhile (· ≠ '/') = [] := List.dropWhile_eq_nil_iff.mpr plain
  rw [parseHdfsPath_eq, if_pos (List.prefix_append _ _), List.drop_left]
  simp only [path_eq, if_true]

theorem hdfsUrl_cases (u : Text) :
    (¬hdfsScheme <+: u) ∨
      (∃ host rest, '/' ∉ host ∧ u = hdfsScheme ++ (host ++ '/' :: rest)) ∨
      ∃ host, '/' ∉ host ∧ u = hdfsScheme ++ host := by
  by_cases scheme : hdfsScheme <+: u
  · obtain ⟨tail, rfl⟩ := scheme
    by_cases slash : '/' ∈ tail
    · obtain ⟨host, rest, rfl, no_slash⟩ := List.eq_append_cons_of_mem slash
      exact .inr (.inl ⟨host, rest, no_slash, rfl⟩)
    · exact .inr (.inr ⟨tail, slash, rfl⟩)
  · exact .inl scheme

/-- Of all inputs only the bare scheme yields an authority that is neither empty nor a host. -/
theorem isAuthority_parseHdfsPath_iff {u : Text} :
    IsAuthority (parseHdfsPath u).1 ↔ u ≠ hdfsScheme := by
  rcases hdfsUrl_cases u with foreign | ⟨host, rest, no_slash, rfl⟩ | ⟨host, no_slash, rfl⟩
  · rw [parseHdfsPath_of_foreign foreign]
    refine iff_of_true .default fun scheme => foreign ?_
    rw [scheme]
  · rw [parseHdfsPath_append no_slash]
    refine iff_of_true ?_ (by simp)
    split
    · exact .default
    · rename_i nonempty
      exact .host nonempty no_slash
  · rw [parseHdfsPath_of_no_slash no_slash]
    constructor
    · intro authority bare
      rw [bare] at authority
      rcases authority.eq_or with empty | ⟨host, nonempty, named⟩
      · exact hdfsScheme_ne_nil empty
      · exact nonempty (List.self_eq_append_right.mp named)
    · intro named
      exact .host (by simpa using named) no_slash

/-- A returned URL leads back to the connection it came from and to the same path. -/
theorem parseHdfsPath_makeUrl (isAuthority : IsAuthority authority)
    (absolute : path.head? = some '/') :
    parseHdfsPath (makeUrl authority path) = (authority, path) := by
  obtain ⟨rest, rfl⟩ : ∃ rest, path = '/' :: rest := by
    cases path with
    | nil => simp at absolute
    | cons c rest => exact ⟨rest, by simpa using absolute⟩
  cases isAuthority with
  | default => exact @parseHdfsPath_append [] rest (by simp)
  | @host host nonempty no_slash =>
      have url_eq : makeUrl (hdfsScheme ++ host) ('/' :: rest) =
          hdfsScheme ++ (host ++ '/' :: rest) := by
        simp [makeUrl, hdfsScheme_ne_nil]
      rw [url_eq, parseHdfsPath_append no_slash, if_neg nonempty]

theorem makeUrl_parseHdfsPath {u : Text} (scheme : hdfsScheme <+: u)
    (slash : '/' ∈ u.drop hdfsScheme.length) :
    makeUrl (parseHdfsPath u).1 (parseHdfsPath u).2 = u := by
  rcases hdfsUrl_cases u with foreign | ⟨host, rest, no_slash, rfl⟩ | ⟨host, no_slash, rfl⟩
  · exact absurd scheme foreign
  · rw [parseHdfsPath_append no_slash]
    cases host with
    | nil => rfl
    | cons c host => simp [makeUrl, hdfsScheme_ne_nil]
  · rw [List.drop_left] at slash
    exact absurd slash no_slash

/-- Every URL built from the authority of an input leads back to that authority and its path, and
an input with a path is built again from its own parts. -/
def RoundTrips (u : Text) : Prop :=
  (∀ p : Text, p.head? = some '/' →
      parseHdfsPath (makeUrl (parseHdfsPath u).1 p) = ((parseHdfsPath u).1, p)) ∧
    (hdfsScheme <+: u → '/' ∈ u.drop hdfsScheme.length →
      makeUrl (parseHdfsPath u).1 (parseHdfsPath u).2 = u)

/-- `hdfs://` is its own authority, and `hdfs:///a` belongs to the default file system. -/
theorem not_roundTrips_scheme : ¬RoundTrips "hdfs://".toList := by
  intro roundTrips
  have returned := roundTrips.1 "/a".toList (by decide)
  revert returned
  decide

/-- The round trip holds for every input but the bare scheme. -/
theorem roundTrips_iff (u : Text) : RoundTrips u ↔ u ≠ "hdfs://".toList := by
  constructor
  · rintro roundTrips rfl
    have returned := roundTrips.1 "/a".toList (by decide)
    revert returned
    decide
  · intro named
    have authority : IsAuthority (parseHdfsPath u).1 := isAuthority_parseHdfsPath_iff.mpr named
    exact ⟨fun p absolute => parseHdfsPath_makeUrl authority absolute, makeUrl_parseHdfsPath⟩

end DuckdbHdfs
