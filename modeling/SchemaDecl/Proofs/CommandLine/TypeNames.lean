import SchemaDecl.CommandLine.Program
import SchemaDecl.Proofs.Json.Updates
import SchemaDecl.Proofs.Schema.Idempotence

/-! Which entry counts for the name of a type. The entries of the command line are
laid over those of the configuration spelling by spelling: an entry for a
spelling that is there already changes what it stands for but not its place.
Only then are the spellings brought to lower case, and of those that become one
the last in place counts. So it is not the last entry for a name that counts but
the last entry under the spelling that was the last to come up, and the two are
the same for all targets exactly if every name was last given in its newest
spelling. -/

namespace SchemaDecl

/-- What the last of the entries with such a source stands for. -/
def lastTarget (p : String → Bool) (said : List (String × String)) : Option String :=
  (said.filter fun entry => p entry.1).getLast?.map Prod.snd

theorem lastTarget_append (p : String → Bool) (before after : List (String × String)) :
    lastTarget p (before ++ after) = (lastTarget p after).or (lastTarget p before) := by
  rw [lastTarget, List.filter_append, List.getLast?_append, Option.map_or, lastTarget, lastTarget]

/-- The last of the entries is also the last of those with its own source. -/
theorem lastTarget_eq_bind (p : String → Bool) (said : List (String × String)) :
    lastTarget p said = ((said.map Prod.fst).filter p).getLast?.bind fun source =>
      lastTarget (· == source) said := by
  rw [List.filter_map, List.getLast?_map, lastTarget]
  cases hlast : (said.filter (p ∘ Prod.fst)).getLast? with
  | none => exact congrArg (Option.map Prod.snd) hlast
  | some entry =>
    have hp : p entry.1 = true := (List.mem_filter.1 (List.mem_of_getLast? hlast)).2
    have hsource : said.filter (fun e => e.1 == entry.1) =
        (said.filter (p ∘ Prod.fst)).filter fun e => e.1 == entry.1 := by
      rw [List.filter_filter]
      refine List.filter_congr fun e _ => ?_
      cases heq : e.1 == entry.1 with
      | false => rfl
      | true => simp [beq_iff_eq.1 heq, hp]
    have hown : (said.filter fun e => e.1 == entry.1).getLast? = some entry := by
      obtain ⟨front, hfront⟩ := List.getLast?_eq_some_iff.1 hlast
      rw [hsource, hfront, List.filter_append, List.getLast?_append]
      simp
    rw [Option.map_some, Option.bind_some, lastTarget, hown]
    exact congrArg (Option.map Prod.snd) hlast

namespace Fields

open Schema

/-- Building the entries first makes no difference to what is found. -/
theorem get?_update_ofList (fields entries : Fields) (key : Key) :
    get? (update fields (ofList entries)) key = get? (update fields entries) key := by
  rw [get?_update, get?_update, ← get?_ofList, ← get?_ofList,
    ofList_of_separate (separate_ofList entries)]

theorem get?_update_named (fields : Fields) (said : List (String × String)) (source : String) :
    get? (update fields (Normal.named said)) (.str source) =
      ((lastTarget (· == source) said).map Json.str).or (get? fields (.str source)) := by
  have hfilter : (Normal.named said).filter (fun e => e.1.same (.str source)) =
      Normal.named (said.filter fun entry => entry.1 == source) := by
    rw [Normal.named, List.filter_map, Normal.named]
    congr 2
    funext entry
    simp [Key.same, Key.canon]
  rw [get?_update, hfilter, Normal.named, List.getLast?_map, Option.map_map, lastTarget,
    Option.map_map]
  rfl

theorem separate_named {said : List (String × String)} (h : (said.map Prod.fst).Nodup) :
    Separate (Normal.named said) := by
  rw [separate_iff_keys, Normal.named, List.map_map]
  rw [List.Nodup, List.pairwise_map] at h
  rw [List.pairwise_map]
  refine h.imp fun hne => ?_
  rw [Bool.eq_false_iff]
  exact fun hsame => hne (Key.same_str.1 hsame)

theorem get?_named {said : List (String × String)} (h : Separate (Normal.named said))
    (source : String) : get? (Normal.named said) (.str source) =
      (lastTarget (· == source) said).map Json.str := by
  conv => lhs; rw [← ofList_of_separate h]
  rw [ofList, get?_update_named, get?, Option.or_none]

theorem eraseDups_append_eraseDups (before sources : List String) :
    (before ++ sources.eraseDups).eraseDups = (before ++ sources).eraseDups := by
  induction hn : sources.length using Nat.strong_induction_on generalizing before sources with
  | _ n ih =>
    cases sources with
    | nil => rfl
    | cons source rest =>
      have hshorter : (rest.filter fun other => !other == source).length < n := by
        have hle := List.length_filter_le (fun other => !other == source) rest
        rw [List.length_cons] at hn
        omega
      have hremove : (rest.filter fun other => !other == source).removeAll (before ++ [source]) =
          rest.removeAll (before ++ [source]) := by
        rw [List.removeAll, List.filter_filter, List.removeAll]
        refine List.filter_congr fun other _ => ?_
        cases heq : other == source <;> simp_all
      rw [List.eraseDups_cons, List.append_cons, ih _ hshorter _ _ rfl, List.eraseDups_append,
        hremove, ← List.eraseDups_append, ← List.append_cons]

theorem exists_named {fields : Fields} (h : ∀ f ∈ fields, ∃ source target : String,
    f = (.str source, .str target)) : ∃ said, fields = Normal.named said := by
  induction fields with
  | nil => exact ⟨[], rfl⟩
  | cons f rest ih =>
    obtain ⟨source, target, hf⟩ := h f List.mem_cons_self
    obtain ⟨said, hsaid⟩ := ih fun g hg => h g (List.mem_cons_of_mem _ hg)
    exact ⟨(source, target) :: said, by rw [hf, hsaid]; rfl⟩

theorem keys_named (said : List (String × String)) :
    (Normal.named said).map Prod.fst = (said.map Prod.fst).map Key.str := by
  simp [Normal.named]

/-- The sources of an update are the old ones and then the new ones as they come up. -/
theorem update_named {said : List (String × String)} (hsaid : (said.map Prod.fst).Nodup)
    (more : List (String × String)) :
    ∃ merged, update (Normal.named said) (Normal.named more) = Normal.named merged ∧
      merged.map Prod.fst = (said.map Prod.fst ++ more.map Prod.fst).eraseDups := by
  have hnamed : ∀ g ∈ Normal.named said ++ Normal.named more, ∃ source target : String,
      g = (.str source, .str target) := by
    intro g hg
    rw [Normal.named, Normal.named, ← List.map_append] at hg
    obtain ⟨entry, _, rfl⟩ := List.mem_map.1 hg
    exact ⟨_, _, rfl⟩
  obtain ⟨merged, hmerged⟩ := exists_named fun f hf => by
    obtain ⟨⟨g, hg, hkey⟩, g', hg', hvalue⟩ := mem_update hf
    obtain ⟨source, _, rfl⟩ := hnamed g hg
    obtain ⟨_, target, rfl⟩ := hnamed g' hg'
    exact ⟨source, target, Prod.ext hkey.symm hvalue.symm⟩
  have hkeys := names_update hsaid (keys_named said) (keys_named more)
  rw [hmerged, keys_named] at hkeys
  exact ⟨merged, hmerged, List.map_injective_iff.2 (fun _ _ => Key.str.inj) hkeys⟩

end Fields

namespace CommandLine

open Schema Schema.TypeNames

/-- The entries of a configuration under those of a command line. -/
def overlaid (settings given : List (String × String)) : Fields :=
  Fields.update (Normal.named settings) (Fields.ofList (Normal.named given))

/-- Another spelling of the same name, or the same. -/
def respells (name source : String) : Bool := Text.lower source == Text.lower name

/-- The spellings of a name, in the order in which they came up. -/
def spellings (name : String) (sources : List String) : List String :=
  sources.eraseDups.filter (respells name)

/-- What the last entry under the newest spelling of the name stands for. -/
def newestTarget (name : String) (said : List (String × String)) : Option String :=
  (spellings name (said.map Prod.fst)).getLast?.bind fun spelling =>
    lastTarget (· == spelling) said

/-- A name without entries has its built-in meaning, or stands for itself in lower case. -/
def orBuiltin (name : String) : Option String → Json
  | some target => .str target
  | none => canonical builtin (.str name)

theorem overlaid_spec {settings : List (String × String)}
    (hsettings : (settings.map Prod.fst).Nodup) (given : List (String × String)) :
    ∃ merged, overlaid settings given = Normal.named merged ∧
      merged.map Prod.fst = ((settings ++ given).map Prod.fst).eraseDups ∧
      ∀ source, lastTarget (· == source) merged = lastTarget (· == source) (settings ++ given) := by
  have hnone : (([] : List (String × String)).map Prod.fst).Nodup := List.nodup_nil
  obtain ⟨own, hown, hsources⟩ := Fields.update_named hnone given
  obtain ⟨merged, hmerged, hall⟩ := Fields.update_named hsettings own
  have hoverlaid : overlaid settings given = Normal.named merged := by
    rw [← hmerged, ← hown]
    rfl
  have hseparate := Fields.separate_named hsettings
  refine ⟨merged, hoverlaid, ?_, fun source => ?_⟩
  · rw [hall, hsources, List.map_nil, List.nil_append, Fields.eraseDups_append_eraseDups,
      List.map_append]
  · have hfound : Fields.get? (overlaid settings given) (.str source) =
        (lastTarget (· == source) (settings ++ given)).map Json.str := by
      rw [overlaid, Fields.get?_update_ofList, Fields.get?_update_named,
        Fields.get?_named hseparate, lastTarget_append, Option.map_or]
    have hmergedSeparate : Fields.Separate (Normal.named merged) := by
      rw [← hoverlaid]
      exact Fields.separate_update hseparate _
    rw [hoverlaid, Fields.get?_named hmergedSeparate] at hfound
    exact Option.map_injective (fun _ _ h => Json.str.inj h) hfound

theorem get?_table (custom : List (String × String)) (name : String) :
    Fields.get? (table (Normal.named custom)) (.str (Text.lower name)) =
      ((lastTarget (respells name) custom).map Json.str).or
        (Fields.get? builtin (.str (Text.lower name))) := by
  have hlowered : (Normal.named custom).map (fun entry => (lowerKey entry.1, entry.2)) =
      Normal.named (custom.map fun entry => (Text.lower entry.1, entry.2)) := by
    simp [Normal.named, lowerKey]
  have hlast : lastTarget (· == Text.lower name)
      (custom.map fun entry => (Text.lower entry.1, entry.2)) =
      lastTarget (respells name) custom := by
    rw [lastTarget, List.filter_map, List.getLast?_map, Option.map_map, lastTarget]
    rfl
  rw [table, hlowered, Fields.get?_update_ofList, Fields.get?_update_named, hlast]

/-- Of the entries that respell a name the last one under the newest spelling counts. -/
theorem canonical_overlaid {settings : List (String × String)}
    (hsettings : (settings.map Prod.fst).Nodup) (given : List (String × String)) (name : String) :
    canonical (table (overlaid settings given)) (.str name) =
      orBuiltin name (newestTarget name (settings ++ given)) := by
  obtain ⟨merged, hmerged, hsources, htargets⟩ := overlaid_spec hsettings given
  have hnewest : lastTarget (respells name) merged = newestTarget name (settings ++ given) := by
    rw [lastTarget_eq_bind, hsources, newestTarget, spellings]
    exact congrArg _ (funext htargets)
  rw [Normal.canonical_str, hmerged, get?_table, hnewest]
  cases newestTarget name (settings ++ given) <;> rfl

/-! The entries of a command line. -/

/-- One entry as a field, or the fault that ends the run. -/
def entryField (text : String) : Except UsageFault (Key × Json) :=
  match entryOf? text with
  | some (source, target) => .ok (.str source, .str target)
  | none => .error (.malformedEntry text)

theorem mapM_entryField {texts : List String} {given : List (String × String)}
    (h : texts.map entryOf? = given.map some) :
    texts.mapM entryField = .ok (Normal.named given) := by
  induction texts generalizing given with
  | nil =>
    rw [List.map_nil, eq_comm, List.map_eq_nil_iff] at h
    rw [h]
    rfl
  | cons text texts ih =>
    cases given with
    | nil => cases h
    | cons entry given =>
      obtain ⟨hentry, hrest⟩ := List.cons.inj h
      rw [List.mapM_cons, entryField, hentry, ih hrest]
      rfl

theorem entries_eq {texts : List String} {given : List (String × String)}
    (h : texts.map entryOf? = given.map some) :
    entries texts = .ok (Fields.ofList (Normal.named given)) := by
  have hentries : entries texts =
      texts.mapM entryField >>= fun fields => pure (Fields.ofList fields) := rfl
  rw [hentries, mapM_entryField h]
  rfl

/-- The type names of a run are those of the configuration under the entries given to it. -/
theorem mergeTypeNames_eq {config : Config} {settings given : List (String × String)}
    {texts : List String} (hconfig : config.typeMapping = some (.obj (Normal.named settings)))
    (htexts : texts.map entryOf? = given.map some) (s : State) :
    (mergeTypeNames config texts).run.run s = (.ok (overlaid settings given), s) := by
  simp only [mergeTypeNames, hconfig, entries_eq htexts]
  rfl

theorem cutAt_append {sep : Char} {before : List Char} (h : sep ∉ before) (after : List Char) :
    Text.cutAt sep (before ++ sep :: after) = (before, some after) := by
  induction before with
  | nil => simp [Text.cutAt]
  | cons c rest ih =>
    obtain ⟨hc, hrest⟩ := not_or.1 (List.mem_cons.not.1 h)
    have hne : c ≠ sep := fun heq => hc heq.symm
    rw [List.cons_append, Text.cutAt, if_neg hne, ih hrest]

theorem not_mem_cutAt (sep : Char) (cs : List Char) : sep ∉ (Text.cutAt sep cs).1 := by
  induction cs with
  | nil => simp [Text.cutAt]
  | cons c rest ih =>
    rw [Text.cutAt]
    split
    · simp
    · rename_i hne
      rw [List.mem_cons, not_or]
      exact ⟨fun heq => hne heq.symm, ih⟩

theorem mem_of_mem_trim {c : Char} {cs : List Char} (h : c ∈ Text.trim cs) : c ∈ cs := by
  rw [Text.trim, Text.trimEnd_eq_rdropWhile] at h
  exact (List.dropWhile_suffix _).subset ((List.rdropWhile_prefix _ _).subset h)

/-- What is a source in some entry can be given for itself. -/
theorem entryOf?_self {text source target : String} (h : entryOf? text = some (source, target)) :
    entryOf? (source ++ "=" ++ source) = some (source, source) := by
  unfold entryOf? at h
  split at h
  · cases h
  · rename_i before after hcut
    dsimp only at h
    split at h
    · cases h
    · rename_i hblank
      rw [Bool.or_eq_true, not_or] at hblank
      obtain ⟨hsource, _⟩ := Prod.mk.inj (Option.some.inj h)
      have hlist : source.toList = Text.trim before := by
        rw [← hsource, String.toList_ofList]
      have hno : '=' ∉ source.toList := by
        intro hmem
        have hbefore := mem_of_mem_trim (hlist ▸ hmem)
        have hcutBefore := not_mem_cutAt '=' text.toList
        rw [hcut] at hcutBefore
        exact hcutBefore hbefore
      have htext : (source ++ "=" ++ source).toList = source.toList ++ '=' :: source.toList := by
        simp [String.toList_append]
      have htrim : Text.trim source.toList = source.toList := by
        rw [hlist, Text.trim_trim]
      have hfilled : ¬ source.toList.isEmpty = true := by
        rw [hlist]
        exact hblank.1
      rw [entryOf?, htext, cutAt_append hno]
      simp [htrim, hfilled]

/-- The run reads schemas with this table of type names. -/
def RunsWith (config : Config) (texts : List String) (names : Fields) : Prop :=
  ∃ merged, (∀ s, (mergeTypeNames config texts).run.run s = (.ok merged, s)) ∧
    tableOf? (.obj merged) = some names

/-- A configuration and entries with these sources, the entries in order. -/
structure Overlay (keys sources : List String) (config : Config) (texts : List String) where
  settings : List (String × String)
  given : List (String × String)
  config_eq : config.typeMapping = some (.obj (Normal.named settings))
  texts_eq : texts.map entryOf? = given.map some
  keys_eq : settings.map Prod.fst = keys
  sources_eq : given.map Prod.fst = sources

theorem Overlay.runsWith {keys sources : List String} {config : Config} {texts : List String}
    (o : Overlay keys sources config texts) :
    RunsWith config texts (table (overlaid o.settings o.given)) :=
  ⟨_, mergeTypeNames_eq o.config_eq o.texts_eq, Normal.tableOf?_obj _⟩

theorem RunsWith.unique {config : Config} {texts : List String} {names names' : Fields}
    (h : RunsWith config texts names) (h' : RunsWith config texts names') : names = names' := by
  obtain ⟨merged, hrun, htable⟩ := h
  obtain ⟨merged', hrun', htable'⟩ := h'
  have hsame := (hrun ⟨⟨[]⟩, [], ""⟩).symm.trans (hrun' ⟨⟨[]⟩, [], ""⟩)
  have hmerged : merged = merged' := Except.ok.inj (Prod.mk.inj hsame).1
  rw [hmerged, htable'] at htable
  exact (Option.some.inj htable).symm

theorem Overlay.sources_of_said {keys sources : List String} {config : Config}
    {texts : List String} (o : Overlay keys sources config texts) :
    (o.settings ++ o.given).map Prod.fst = keys ++ sources := by
  rw [List.map_append, o.keys_eq, o.sources_eq]

/-- The last entry that respells the name counts, and those of the command line come last. -/
def LastCounts (keys sources : List String) : Prop :=
  ∀ config texts (o : Overlay keys sources config texts) names, RunsWith config texts names →
    ∀ name, canonical names (.str name) =
      orBuiltin name ((lastTarget (respells name) o.given).or
        (lastTarget (respells name) o.settings))

/-- Every name was last given in the spelling that was the last to come up. -/
def LastIsNewest (keys sources : List String) : Prop :=
  ∀ name, ((keys ++ sources).filter (respells name)).getLast? =
    (spellings name (keys ++ sources)).getLast?

theorem lastCounts_of_lastIsNewest {keys sources : List String} (hkeys : keys.Nodup)
    (h : LastIsNewest keys sources) : LastCounts keys sources := by
  intro config texts o names hnames name
  have hsettings : (o.settings.map Prod.fst).Nodup := by rwa [o.keys_eq]
  rw [hnames.unique o.runsWith, canonical_overlaid hsettings, ← lastTarget_append,
    lastTarget_eq_bind, o.sources_of_said, h name, newestTarget, o.sources_of_said]

/-! Entries that give every source for itself show which of them counts. -/

def selves (sources : List String) : List (String × String) :=
  sources.map fun source => (source, source)

theorem fst_selves (sources : List String) : (selves sources).map Prod.fst = sources := by
  simp [selves, Function.comp_def]

theorem lastTarget_selves (p : String → Bool) (sources : List String) :
    lastTarget p (selves sources) = (sources.filter p).getLast? := by
  rw [lastTarget, selves, List.filter_map, List.getLast?_map, Option.map_map]
  exact Option.map_id_fun' ▸ rfl

theorem newestTarget_selves (name : String) (sources : List String) :
    newestTarget name (selves sources) = (spellings name sources).getLast? := by
  rw [newestTarget, fst_selves]
  cases hnewest : (spellings name sources).getLast? with
  | none => rfl
  | some spelling =>
    have hmem : spelling ∈ sources := by
      have hspellings := List.mem_of_getLast? hnewest
      exact List.mem_eraseDups.1 (List.mem_filter.1 hspellings).1
    rw [Option.bind_some, lastTarget_selves]
    cases hlast : (sources.filter (· == spelling)).getLast? with
    | none =>
      rw [List.getLast?_eq_none_iff, List.filter_eq_nil_iff] at hlast
      exact absurd (beq_self_eq_true spelling) (hlast spelling hmem)
    | some source =>
      have hsame := (List.mem_filter.1 (List.mem_of_getLast? hlast)).2
      rw [beq_iff_eq.1 hsame]

theorem lastIsNewest_of_lastCounts {keys sources : List String} (hkeys : keys.Nodup)
    (hsources : ∀ source ∈ sources, ∃ text target, entryOf? text = some (source, target))
    (h : LastCounts keys sources) : LastIsNewest keys sources := by
  intro name
  have htexts : (sources.map fun source => source ++ "=" ++ source).map entryOf? =
      (selves sources).map some := by
    rw [List.map_map, selves, List.map_map]
    refine List.map_congr_left fun source hsource => ?_
    obtain ⟨text, target, hentry⟩ := hsources source hsource
    exact entryOf?_self hentry
  let config : Config := { typeMapping := some (.obj (Normal.named (selves keys))) }
  let o : Overlay keys sources config _ :=
    ⟨selves keys, selves sources, rfl, htexts, fst_selves keys, fst_selves sources⟩
  have hcounts := h config _ o _ o.runsWith name
  have hboth : selves keys ++ selves sources = selves (keys ++ sources) := by
    rw [selves, selves, selves, List.map_append]
  have hsettings : ((selves keys).map Prod.fst).Nodup := by rwa [fst_selves]
  rw [canonical_overlaid hsettings, ← lastTarget_append, hboth, newestTarget_selves,
    lastTarget_selves] at hcounts
  have hmem : ∀ source, source ∈ spellings name (keys ++ sources) ↔
      source ∈ (keys ++ sources).filter (respells name) := by
    intro source
    rw [spellings, List.mem_filter, List.mem_eraseDups, List.mem_filter]
  cases hnewest : (spellings name (keys ++ sources)).getLast? with
  | none =>
    rw [List.getLast?_eq_none_iff, List.eq_nil_iff_forall_not_mem] at hnewest ⊢
    exact fun source hsource => hnewest source ((hmem source).2 hsource)
  | some spelling =>
    cases hlast : ((keys ++ sources).filter (respells name)).getLast? with
    | none =>
      rw [List.getLast?_eq_none_iff, List.eq_nil_iff_forall_not_mem] at hlast
      exact absurd ((hmem spelling).1 (List.mem_of_getLast? hnewest)) (hlast spelling)
    | some source =>
      rw [hnewest, hlast] at hcounts
      rw [Json.str.inj hcounts]

/-- Of the entries for a name the last one under its newest spelling counts. It is the last one
under any spelling, whatever the entries stand for, exactly if every name was last given in its
newest spelling. -/
theorem newest_spelling_counts {keys sources : List String} (hkeys : keys.Nodup)
    (hsources : ∀ source ∈ sources, ∃ text target, entryOf? text = some (source, target)) :
    (∀ config texts (o : Overlay keys sources config texts), ∃ names,
      RunsWith config texts names ∧ ∀ name, canonical names (.str name) =
        orBuiltin name (newestTarget name (o.settings ++ o.given))) ∧
      (LastCounts keys sources ↔ LastIsNewest keys sources) := by
  refine ⟨fun config texts o => ⟨_, o.runsWith, fun name => ?_⟩,
    lastIsNewest_of_lastCounts hkeys hsources, lastCounts_of_lastIsNewest hkeys⟩
  exact canonical_overlaid (by rwa [o.keys_eq]) o.given name

/-- Two spellings of one name. -/
def dates : Config where
  typeMapping := some (.obj [("Date", .str "string"), ("DATE", .str "integer")])

def datesOverlay : Overlay ["Date", "DATE"] ["Date"] dates ["Date=boolean"] where
  settings := [("Date", "string"), ("DATE", "integer")]
  given := [("Date", "boolean")]
  config_eq := rfl
  texts_eq := by decide +kernel
  keys_eq := rfl
  sources_eq := rfl

theorem newest_spelling_counts_dates : ["Date", "DATE"].Nodup ∧
    (∀ source ∈ ["Date"], ∃ text target, entryOf? text = some (source, target)) ∧
    (∃ names, RunsWith dates ["Date=boolean"] names ∧ ∀ name, canonical names (.str name) =
      orBuiltin name (newestTarget name (datesOverlay.settings ++ datesOverlay.given))) ∧
    (LastCounts ["Date", "DATE"] ["Date"] ↔ LastIsNewest ["Date", "DATE"] ["Date"]) := by
  have hkeys : ["Date", "DATE"].Nodup := by decide
  have hsources : ∀ source ∈ ["Date"], ∃ text target, entryOf? text = some (source, target) := by
    intro source hsource
    rw [List.mem_singleton.1 hsource]
    exact ⟨"Date=boolean", "boolean", by decide +kernel⟩
  obtain ⟨hcounts, hiff⟩ := newest_spelling_counts hkeys hsources
  exact ⟨hkeys, hsources, hcounts dates _ datesOverlay, hiff⟩

/-- An entry of the command line does not count beside another spelling in the configuration. -/
theorem given_entry_overridden : ∃ names, RunsWith dates ["Date=boolean"] names ∧
    canonical names (.str "date") = .str "integer" ∧
    orBuiltin "date" ((lastTarget (respells "date") datesOverlay.given).or
      (lastTarget (respells "date") datesOverlay.settings)) = .str "boolean" :=
  ⟨_, datesOverlay.runsWith, by decide +kernel, by decide +kernel⟩

end CommandLine

end SchemaDecl
