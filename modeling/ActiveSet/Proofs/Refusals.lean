import ActiveSet.Proofs.Loggers
/-
  What a refused change of the level leaves behind

  Two texts are taken for levels that are none, and no logger accepts what they
  stand for (`refuses_iff_isMisread`). The setting for new loggers has changed
  by the time the first logger refuses it: that is all that is left of setting
  the level, or of entering a block (`setLevel_refused_iff`). A configuration
  goes from logger to logger, and the first one has lost its handlers by then
  (`configure_refused`), also if it is the format that is refused.

  The states in question are those that any operations lead to, refused ones
  included (`Registry.Reaches`). There may be loggers in them that nobody was
  given, and several levels; what holds all the same is that the names differ
  and that those handed out have a logger each (`Registry.Sound`).
-/

namespace ActiveSet

namespace Journal

/-! ## Levels that are none -/

/-- A text in capitals. -/
def Level.capitals (text : String) : String := String.ofList (text.toList.flatMap capital)

namespace LevelRequest

/-- Whether a level is asked for by a text or by a whole number. -/
def IsPlain : LevelRequest → Prop
  | name _ | whole _ => True
  | real _ | other => False

/-- Whether a level is asked for by the name of the plain format or of the table of styles. -/
def IsMisread : LevelRequest → Prop
  | name text => Level.capitals text = "BASIC_FORMAT" ∨ Level.capitals text = "_STYLES"
  | _ => False

end LevelRequest

namespace Level

theorem exists_setting {request : LevelRequest} (h : request.IsPlain) :
    ∃ setting, ofRequest request = .ok setting := by
  cases request with
  | name text => exact ⟨_, rfl⟩
  | whole n => exact ⟨_, rfl⟩
  | real x => exact h.elim
  | other => exact h.elim

/-- Of all names just two stand for something that loggers refuse. -/
theorem refuses_ofName (text : String) : (∃ refusal, (ofName text).accept = .error refusal) ↔
    capitals text = "BASIC_FORMAT" ∨ capitals text = "_STYLES" := by
  have hname : ofName text = (named.lookup (capitals text)).getD (number warning) := rfl
  rw [hname]
  generalize capitals text = s
  constructor
  · rintro ⟨refusal, h⟩
    cases hlookup : named.lookup s with
    | none =>
      rw [hlookup] at h
      cases h
    | some setting =>
      rw [hlookup, Option.getD_some] at h
      obtain ⟨before, after, hentries, -⟩ := List.lookup_eq_some_iff.mp hlookup
      have hmem : (s, setting) ∈ named := by simp [hentries]
      cases setting with
      | number n => cases h
      | plainFormat => exact .inl (by simpa [named] using hmem)
      | styles => exact .inr (by simpa [named] using hmem)
  · rintro (rfl | rfl)
    · exact ⟨_, rfl⟩
    · exact ⟨_, rfl⟩

/-- A plain request is for a level unless it is misread. -/
theorem refuses_iff_isMisread {request : LevelRequest} {setting : Level}
    (h : ofRequest request = .ok setting) :
    (∃ refusal, setting.accept = .error refusal) ↔ request.IsMisread := by
  cases request with
  | name text =>
    cases h
    exact refuses_ofName text
  | whole n =>
    cases h
    constructor
    · rintro ⟨refusal, hrefused⟩
      cases hrefused
    · exact False.elim
  | real x =>
    constructor
    · rintro ⟨refusal, hrefused⟩
      unfold ofRequest at h
      dsimp only at h
      split at h
      · cases h
        cases hrefused
      · cases h
    · exact False.elim
  | other => cases h

end Level

namespace Registry

variable {r r' r₀ : Registry} {name : String} {request : LevelRequest} {setting : Level}
  {refusal : Refusal}

/-! ## All reachable states -/

/-- Operations, each of them granted or refused, lead from one state to another. Other code may be
at work on any logger. -/
inductive Reaches (r₀ : Registry) : Registry → Prop where
  | start : Reaches r₀ r₀
  | next {r : Registry} (op : Operation) : Reaches r₀ r → Reaches r₀ (r.perform op).2

/-- Whether the names of the loggers differ, and those handed out are names of the program's, with
a logger each. -/
structure Sound (r : Registry) : Prop where
  distinct : r.names.Nodup
  made : ∀ name ∈ r.handedOut, name ∈ r.names
  own : ∀ name ∈ r.handedOut, IsOwn name

/-- What every operation does, granted or refused: it keeps what is sound, and takes back no logger
that was handed out. -/
structure Grows (r r' : Registry) : Prop where
  sound : r.Sound → r'.Sound
  handedOut : r.handedOut <+: r'.handedOut

theorem logger?_eq_none_iff : r.logger? name = none ↔ name ∉ r.names := by
  rw [logger?, List.lookup_eq_none_iff, names, List.mem_map]
  constructor
  · rintro h ⟨entry, hmem, rfl⟩
    simpa using h entry hmem
  · intro h entry hmem
    exact bne_iff_ne.mpr fun heq => h ⟨entry, hmem, heq.symm⟩

theorem Sound.exists_logger (h : r.Sound) (hname : name ∈ r.handedOut) :
    ∃ l, r.logger? name = some l := by
  cases hlogger : r.logger? name with
  | some l => exact ⟨l, rfl⟩
  | none => exact absurd (h.made name hname) (logger?_eq_none_iff.mp hlogger)

theorem Sound.isRoot (h : r.Sound) (hname : name ∈ r.handedOut) : isRoot name = false :=
  isRoot_of_isOwn (h.own name hname)

theorem Grows.trans {r'' : Registry} (h : r.Grows r') (h' : r'.Grows r'') : r.Grows r'' :=
  ⟨fun hr => h'.sound (h.sound hr), h.handedOut.trans h'.handedOut⟩

section Grows

variable (r) (f : Logger → Logger)

/-- The settings have no part in what is sound. -/
theorem grows_settings (default : Level) (blocks : List Level) :
    r.Grows { r with default, blocks } :=
  ⟨fun h => ⟨h.distinct, h.made, h.own⟩, List.prefix_rfl⟩

theorem grows_update (name : String) : r.Grows (r.update name f) := by
  have hnames := names_prefix_update r name f
  refine ⟨fun h => ⟨?_, fun other hother => ?_, fun other hother => ?_⟩, by simp⟩
  · rcases names_update r name f with hsame | ⟨hnone, hmade⟩
    · rw [hsame]
      exact h.distinct
    · rw [hmade]
      refine List.nodup_append.mpr ⟨h.distinct, List.pairwise_singleton .., ?_⟩
      rintro other hother _ hmem rfl
      exact logger?_eq_none_iff.mp hnone (List.mem_singleton.mp hmem ▸ hother)
  · rw [handedOut_update] at hother
    exact hnames.subset (h.made other hother)
  · rw [handedOut_update] at hother
    exact h.own other hother

theorem grows_updateAll : r.Grows (r.updateAll f) := by
  unfold updateAll
  induction r.handedOut generalizing r with
  | nil => exact ⟨id, List.prefix_rfl⟩
  | cons name names ih => exact (grows_update r f name).trans (ih _)

/-- A name of the program's that has a logger may be handed out. -/
theorem grows_handOut (hown : IsOwn name) (hmade : name ∈ r.names) :
    r.Grows { r with handedOut := r.handedOut ++ [name] } := by
  refine ⟨fun h => ⟨h.distinct, fun other hother => ?_, fun other hother => ?_⟩,
    List.prefix_append _ _⟩
  · rcases List.mem_append.mp hother with hold | hnew
    · exact h.made other hold
    · exact List.mem_singleton.mp hnew ▸ hmade
  · rcases List.mem_append.mp hother with hold | hnew
    · exact h.own other hold
    · exact List.mem_singleton.mp hnew ▸ hown

theorem mem_names_update (hroot : Registry.isRoot name = false) :
    name ∈ (r.update name f).names := by
  by_contra hnone
  have hlogger := logger?_eq_none_iff.mpr hnone
  rw [logger?_update hroot, if_pos rfl] at hlogger
  cases hlogger

variable (request)

theorem grows_get (hown : IsOwn name) : r.Grows (r.get name).2 := by
  have hroot := isRoot_of_isOwn hown
  have hfirst := grows_update r id name
  unfold get
  split
  · exact grows_settings r r.default r.blocks
  · dsimp only
    split
    · split
      · exact hfirst
      · exact (hfirst.trans (grows_update _ _ name)).trans
          (grows_handOut _ hown (mem_names_update _ _ hroot))
    · exact hfirst.trans (grows_handOut _ hown (mem_names_update _ _ hroot))

theorem grows_setLevel : r.Grows (r.setLevel request).2 := by
  unfold setLevel
  split
  · exact grows_settings r r.default r.blocks
  · next setting _ =>
    have hsettings := grows_settings r setting r.blocks
    dsimp only
    split
    · exact hsettings
    · split
      · exact hsettings
      · exact hsettings.trans (grows_updateAll _ _)

theorem grows_configure (format stream : Option String) :
    r.Grows (r.configure request format stream).2 := by
  unfold configure
  split
  · exact grows_settings r r.default r.blocks
  · next setting _ =>
    have hsettings := grows_settings r setting r.blocks
    dsimp only
    split
    · exact hsettings
    · split
      · dsimp only
        exact hsettings.trans (grows_update _ _ _)
      · generalize (if format.getD defaultFormat = "" then messageFormat
          else format.getD defaultFormat) = text
        split
        · exact hsettings.trans (grows_updateAll _ _)
        · dsimp only
          exact hsettings.trans (grows_update _ _ _)

theorem grows_push : r.Grows (r.push request).2 := by
  have hset := grows_setLevel r request
  unfold push
  split
  · next r' hgranted =>
    rw [hgranted] at hset
    exact hset.trans (grows_settings r' r'.default _)
  · exact hset

theorem grows_pop : r.Grows r.pop.2 := by
  unfold pop
  split
  · exact grows_settings r r.default r.blocks
  · exact (grows_settings r r.default _).trans (grows_setLevel _ _)

theorem grows_perform (op : Operation) : r.Grows (r.perform op).2 := by
  cases op with
  | get request => exact grows_get r (isOwn_fullName request)
  | setLevel level => exact grows_setLevel r level
  | configure level format stream => exact grows_configure r level format stream
  | enter level => exact grows_push r level
  | leave => exact grows_pop r
  | foreign name level stream =>
    show r.Grows (r.attach name level stream)
    unfold attach
    exact grows_update r _ name

end Grows

theorem Reaches.grows (h : Reaches r₀ r) : r₀.Grows r := by
  induction h with
  | start => exact ⟨id, List.prefix_rfl⟩
  | next op _ ih => exact ih.trans (grows_perform _ op)

theorem sound_empty (setting : Level) : (empty setting).Sound where
  distinct := List.nodup_nil
  made _ h := nomatch h
  own _ h := nomatch h

/-- A program starts in a sound state. -/
theorem sound_start {environment : Option String} (h : start environment = .ok r) : r.Sound := by
  obtain ⟨setting, r₁, hfirst, hsecond⟩ := start_ok h
  have hsound := (grows_get _ isOwn_solverName).sound (sound_empty setting)
  rw [hfirst] at hsound
  have hlast := (grows_get _ isOwn_regressionName).sound hsound
  rw [hsecond] at hlast
  exact hlast

/-! ## Refused changes -/

theorem startingWith_eq_self_iff : r.startingWith setting = r ↔ r.default = setting := by
  constructor
  · exact fun h => (congrArg Registry.default h).symm
  · rintro rfl
    rfl

/-- A refused level is the setting for new loggers, and nothing else has changed. -/
theorem setLevel_refused_iff (h : Level.ofRequest request = .ok setting)
    (hne : r.handedOut ≠ []) : r.setLevel request = (.error refusal, r') ↔
      setting.accept = .error refusal ∧ r' = r.startingWith setting := by
  rw [setLevel_eq h hne]
  cases setting.accept with
  | ok n => simp
  | error cause =>
    simp only [Prod.mk.injEq, Except.error.injEq]
    exact and_congr_right fun _ => eq_comm

/-- No block is entered with a level that is refused. -/
theorem push_refused_iff : r.push request = (.error refusal, r') ↔
    r.setLevel request = (.error refusal, r') := by
  unfold push
  split
  · next r₁ hgranted => simp [hgranted]
  · exact Iff.rfl

/-- A configuration is refused for its level or for its format. -/
theorem configure_refused_iff (hsetting : Level.ofRequest request = .ok setting)
    (hne : r.handedOut ≠ []) (format stream : Option String) :
    (∃ refusal r', r.configure request format stream = (.error refusal, r')) ↔
      (∃ refusal, setting.accept = .error refusal) ∨
        Template.isAccepted (formatOf format).toList = false := by
  obtain ⟨first, rest, hhandedOut⟩ := List.exists_cons_of_ne_nil hne
  rw [configure_eq hsetting hhandedOut]
  cases setting.accept with
  | error cause => simp
  | ok n =>
    cases Template.isAccepted (formatOf format).toList with
    | true => simp
    | false => simp

theorem configure_refused {format stream : Option String}
    (hsetting : Level.ofRequest request = .ok setting)
    (h : r.configure request format stream = (.error refusal, r')) :
    ∃ first rest, r.handedOut = first :: rest ∧
      r' = (r.startingWith setting).update first (stripped setting) := by
  cases hhandedOut : r.handedOut with
  | nil =>
    unfold configure at h
    rw [hsetting] at h
    dsimp only at h
    rw [hhandedOut] at h
    cases h
  | cons first rest =>
    rw [configure_eq hsetting hhandedOut] at h
    refine ⟨first, rest, rfl, ?_⟩
    split at h
    · cases h
      rfl
    · split at h
      · cases h
      · cases h
        rfl

/-- With different names a lookup finds every logger that is there. -/
theorem lookup_of_mem {loggers : List (String × Logger)} (h : (loggers.map Prod.fst).Nodup)
    {l : Logger} (hmem : (name, l) ∈ loggers) : loggers.lookup name = some l := by
  induction loggers with
  | nil => cases hmem
  | cons entry loggers ih =>
    obtain ⟨k, first⟩ := entry
    obtain ⟨hnew, hrest⟩ := List.nodup_cons.mp h
    rcases List.mem_cons.mp hmem with heq | hmem
    · cases heq
      exact List.lookup_cons_self
    · have hname : name ∈ loggers.map Prod.fst := List.mem_map_of_mem hmem
      have hne : name ≠ k := fun heq => hnew (heq ▸ hname)
      rw [List.lookup_cons, beq_false_of_ne hne]
      exact ih hrest hmem

/-- A change of one logger changes nothing exactly if it leaves that logger as it is. -/
theorem update_eq_self_iff (h : r.Sound) (hname : name ∈ r.handedOut) {l : Logger}
    (hlogger : r.logger? name = some l) (f : Logger → Logger) :
    r.update name f = r ↔ f l = l := by
  constructor
  · intro hsame
    have hchanged := logger?_update (r := r) (h.isRoot hname) f name
    rw [hsame, if_pos rfl, hlogger, Option.getD_some] at hchanged
    exact (Option.some.inj hchanged).symm
  · intro hsame
    unfold update
    rw [if_neg (Bool.eq_false_iff.mp (h.isRoot hname)), if_pos (by rw [hlogger]; rfl)]
    have hloggers : (r.loggers.map fun entry =>
        if entry.1 = name then (entry.1, f entry.2) else entry) = r.loggers := by
      refine (List.map_congr_left fun entry hmem => ?_).trans (List.map_id _)
      split
      · next heq =>
        subst heq
        have hentry : r.logger? entry.1 = some entry.2 := lookup_of_mem h.distinct hmem
        obtain rfl : entry.2 = l := Option.some.inj (hentry.symm.trans hlogger)
        rw [hsame]
        rfl
      · rfl
    rw [hloggers]

/-! ## What goes on as before -/

/-- Whether what happens in one state happens in another: what loggers write, how the level is set
and the handlers are replaced, and how the innermost block is left. -/
structure ActsAs (r' r : Registry) : Prop where
  write : ∀ name level message verbatim origin,
    r'.write name level message verbatim origin = r.write name level message verbatim origin
  setLevel : ∀ request, request.IsPlain → r'.setLevel request = r.setLevel request
  configure : ∀ request format stream, request.IsPlain →
    r'.configure request format stream = r.configure request format stream
  leave : ∀ after, r'.pop = (.ok (), after) ↔ r.pop = (.ok (), after)

section ActsAs

variable (r) (setting)

theorem above_startingWith (reversed : List Char) :
    (r.startingWith setting).above reversed = r.above reversed := by
  induction reversed using above.induct r with
  | case1 reversed hnone =>
    rw [above, above, hnone]
  | case2 reversed c rest hrest l hlogger ih =>
    have hlogger' : (r.startingWith setting).logger? (String.ofList (c :: rest).reverse) = some l :=
      hlogger
    rw [above, above, hrest]
    simp only [hlogger, hlogger', ih]
  | case3 reversed c rest hrest hlogger ih =>
    have hlogger' : (r.startingWith setting).logger? (String.ofList (c :: rest).reverse) = none :=
      hlogger
    rw [above, above, hrest]
    simp only [hlogger, hlogger', ih]

theorem write_startingWith (name : String) (level : Int) (message : String) (verbatim : Bool)
    (origin : Origin) : (r.startingWith setting).write name level message verbatim origin =
      r.write name level message verbatim origin := by
  have hchain : (r.startingWith setting).chain name = r.chain name := by
    rw [chain, chain, above_startingWith]
    rfl
  rw [write, write, effectiveLevel, effectiveLevel, hchain]

theorem setLevel_startingWith (hplain : request.IsPlain) :
    (r.startingWith setting).setLevel request = r.setLevel request := by
  obtain ⟨wanted, hwanted⟩ := Level.exists_setting hplain
  unfold setLevel
  rw [hwanted]
  rfl

theorem configure_startingWith (hplain : request.IsPlain) (format stream : Option String) :
    (r.startingWith setting).configure request format stream =
      r.configure request format stream := by
  obtain ⟨wanted, hwanted⟩ := Level.exists_setting hplain
  unfold configure
  rw [hwanted]
  rfl

/-- A block is left with the setting from before it, whatever the present one is. -/
theorem pop_startingWith (after : Registry) :
    (r.startingWith setting).pop = (.ok (), after) ↔ r.pop = (.ok (), after) := by
  unfold pop
  cases hblocks : r.blocks with
  | nil =>
    have hblocks' : (r.startingWith setting).blocks = [] := hblocks
    rw [hblocks']
    simp
  | cons previous blocks =>
    have hblocks' : (r.startingWith setting).blocks = previous :: blocks := hblocks
    rw [hblocks']
    cases previous with
    | number n => exact Iff.rfl
    | plainFormat => exact Iff.rfl
    | styles =>
      -- a setting that cannot even be asked for again
      constructor
      · intro h
        cases h
      · intro h
        cases h

theorem actsAs_startingWith : (r.startingWith setting).ActsAs r where
  write := write_startingWith r setting
  setLevel _ hplain := setLevel_startingWith r setting hplain
  configure _ format stream hplain := configure_startingWith r setting hplain format stream
  leave := pop_startingWith r setting

end ActsAs

/-- A logger that has no handler yet cannot be had with a setting that is refused. -/
theorem get_refused (hrefused : setting.accept = .error refusal) (hown : IsOwn name)
    (hnew : name ∉ r.handedOut) (hbare : ((r.logger? name).getD fresh).handlers = []) :
    ((r.startingWith setting).get name).1 = .error refusal := by
  have hmade : (((r.startingWith setting).update name id).logger? name).getD fresh =
      (r.logger? name).getD fresh := by
    rw [logger?_update (isRoot_of_isOwn hown), if_pos rfl]
    rfl
  have hcontains : ¬ r.handedOut.contains name = true := by simpa using hnew
  unfold get
  rw [if_neg (show ¬ (r.startingWith setting).handedOut.contains name = true from hcontains)]
  simp only [hmade, hbare, List.isEmpty_nil, if_true, default_update]
  have hdefault : (r.startingWith setting).default.accept = .error refusal := hrefused
  rw [hdefault]

/-- What a refused change of the level leaves behind, in any state that a program gets to. A level
that is given as a number is never refused, and of the texts just those are that are misread. Where
the level is set, or a block is entered, only the setting for new loggers is another one afterwards,
so the state is the same exactly if it had that setting already: what loggers write, further changes
of the level and the end of open blocks are as if nothing had happened, but a logger that has no
handler yet cannot be had. Where the handlers are replaced, a format may be refused as well; the
first logger has lost its own by then, and it has the level if only the format is refused. -/
theorem residue_of_refused {environment : Option String} (hstart : start environment = .ok r₀)
    (hreach : Reaches r₀ r) (hplain : request.IsPlain) :
    ∃ setting, Level.ofRequest request = .ok setting ∧
      ((∃ refusal, setting.accept = .error refusal) ↔ request.IsMisread) ∧
      (∀ refusal r', r.setLevel request = (.error refusal, r') ↔
        setting.accept = .error refusal ∧ r' = r.startingWith setting) ∧
      (∀ refusal r', r.push request = (.error refusal, r') ↔
        setting.accept = .error refusal ∧ r' = r.startingWith setting) ∧
      (r.startingWith setting = r ↔ r.default = setting) ∧
      (r.startingWith setting).ActsAs r ∧
      (∀ refusal name, setting.accept = .error refusal → IsOwn name → name ∉ r.handedOut →
        ((r.logger? name).getD fresh).handlers = [] →
          ((r.startingWith setting).get name).1 = .error refusal) ∧
      (∀ format stream, (∃ refusal r', r.configure request format stream = (.error refusal, r')) ↔
        request.IsMisread ∨ Template.isAccepted (formatOf format).toList = false) ∧
      ∀ format stream refusal r', r.configure request format stream = (.error refusal, r') →
        ∃ first rest l, r.handedOut = first :: rest ∧ r.logger? first = some l ∧
          r' = (r.startingWith setting).update first (stripped setting) ∧
          r'.logger? first = some (stripped setting l) ∧
          (∀ name, name ≠ first → r'.logger? name = r.logger? name) ∧
          (r' = r ↔ r.default = setting ∧ stripped setting l = l) := by
  obtain ⟨setting, hsetting⟩ := Level.exists_setting hplain
  have hgrown := hreach.grows
  have hsound := hgrown.sound (sound_start hstart)
  obtain ⟨n, -, hsolver⟩ := uniform_start hstart
  have hne : r.handedOut ≠ [] := List.ne_nil_of_mem (hgrown.handedOut.subset hsolver)
  have hmisread := Level.refuses_iff_isMisread hsetting
  refine ⟨setting, hsetting, hmisread,
    fun refusal r' => setLevel_refused_iff hsetting hne,
    fun refusal r' => push_refused_iff.trans (setLevel_refused_iff hsetting hne),
    startingWith_eq_self_iff, actsAs_startingWith r setting,
    fun refusal name hrefused hown hnew hbare => get_refused hrefused hown hnew hbare,
    fun format stream => ?_, fun format stream refusal r' h => ?_⟩
  · rw [configure_refused_iff hsetting hne, hmisread]
  obtain ⟨first, rest, hhandedOut, rfl⟩ := configure_refused hsetting h
  have hfirst : first ∈ r.handedOut := hhandedOut ▸ List.mem_cons_self
  obtain ⟨l, hlogger⟩ := hsound.exists_logger hfirst
  have hlogger' : (r.startingWith setting).logger? first = some l := hlogger
  refine ⟨first, rest, l, hhandedOut, hlogger, rfl, ?_, fun name hne => ?_, ?_⟩
  · rw [logger?_update (hsound.isRoot hfirst), if_pos rfl, hlogger', Option.getD_some]
  · exact logger?_update_of_ne hne _
  · constructor
    · intro hsame
      have hdefault := congrArg Registry.default hsame
      rw [default_update] at hdefault
      obtain rfl : setting = r.default := hdefault
      exact ⟨rfl, (update_eq_self_iff hsound hfirst hlogger _).mp hsame⟩
    · rintro ⟨rfl, hsame⟩
      exact (update_eq_self_iff hsound hfirst hlogger _).mpr hsame

/-! ### A misread level -/

/-- After the name of the plain format was taken for a level, the loggers write as before, but there
is no logger for a new name, until a level is set. A configuration with it leaves the first logger
without handlers. -/
theorem residue_of_refused_basicFormat :
    ∃ r', started.setLevel (.name "Basic_Format") = (.error .unknownLevel, r') ∧ r' ≠ started ∧
      (∀ message origin, r'.write solverName 30 message true origin =
        started.write solverName 30 message true origin) ∧
      (r'.get "dualqp.a").1 = .error .unknownLevel ∧
      r'.setLevel (.name "info") = started.setLevel (.name "info") ∧
      ∃ r'', started.configure (.name "Basic_Format") none none = (.error .unknownLevel, r'') ∧
        r''.logger? solverName = some ⟨30, [], false⟩ ∧
        r''.logger? regressionName = started.logger? regressionName := by
  obtain ⟨setting, hsetting, -, hset, -, hsame, hacts, hget, -, hconfigure⟩ :=
    residue_of_refused start_none .start
      (show (LevelRequest.name "Basic_Format").IsPlain from trivial)
  obtain rfl : .plainFormat = setting := Except.ok.inj hsetting
  have hown : IsOwn "dualqp.a" := .inr (by decide +kernel)
  refine ⟨_, (hset _ _).mpr ⟨rfl, rfl⟩, fun h => ?_, fun message origin => hacts.write _ _ _ _ _,
    hget _ _ rfl hown (by decide) rfl, hacts.setLevel _ trivial, _, rfl, ?_⟩
  · cases hsame.mp h
  · obtain ⟨first, rest, l, hhandedOut, hlogger, -, hstripped, hothers, -⟩ :=
      hconfigure none none .unknownLevel _ rfl
    cases hhandedOut
    cases hlogger
    exact ⟨hstripped, hothers _ (by decide)⟩

/-- A refused change of the level may change the setting for new loggers, and then a logger is
refused that could be had before. -/
theorem not_untouched_of_refused : ¬ ∀ (environment : Option String) (r₀ r r' : Registry)
    (request : LevelRequest) (refusal : Refusal), start environment = .ok r₀ → Reaches r₀ r →
    request.IsPlain →
    (r.setLevel request = (.error refusal, r') ∨ r.push request = (.error refusal, r') ∨
      ∃ format stream, r.configure request format stream = (.error refusal, r')) →
    r'.default = r.default ∧ (∀ name, r'.logger? name = r.logger? name) ∧
      ∀ name, (r'.get name).1 = (r.get name).1 := by
  intro h
  obtain ⟨-, -, hget⟩ := h none started started (started.startingWith .plainFormat)
    (.name "BASIC_FORMAT") .unknownLevel start_none .start trivial (.inl rfl)
  cases hget "dualqp.a"

end Registry

end Journal

end ActiveSet
