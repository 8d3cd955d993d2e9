import ActiveSet.Proofs.Records
/-
  The loggers of a program over whole runs

  A run is any sequence of requests to the registry that are granted, with
  other code at work on loggers that are not the program's (`Registry.Run`).
  In every state that a run reaches, all loggers that were handed out have the
  level in force, and one handler with this level, and propagate nothing
  (`Registry.Uniform`). A record on such a logger is thus the matter of its
  one handler. Blocks that are entered and left in order give back the list
  of the open blocks (`blocks_of_balanced`), and leaving one asks for the level
  from before it; since all loggers share the level in force, this settles
  them all, also those made in the block.

  A handler may still write nothing: a format is taken if one of its
  conversions is well formed, and applied only if all of them are.
-/

namespace ActiveSet

namespace Journal

namespace Registry

/-! ## Names -/

/-- Whether a name is the one above all loggers of the program, or is below it. -/
def IsOwn (name : String) : Prop := name = topName ∨ (topName ++ ".").isPrefixOf name = true

theorem isPrefixOf_append (p s : String) : p.isPrefixOf (p ++ s) = true := by
  refine String.startsWith_string_iff.mpr ?_
  rw [String.toList_append]
  exact List.prefix_append _ _

/-- Every request for a logger means a name of the program. -/
theorem isOwn_fullName (request : Option String) : IsOwn (fullName request) := by
  cases request with
  | none => exact .inl rfl
  | some name =>
    rw [fullName]
    split
    · next h => simpa [IsOwn] using h
    · exact .inr (isPrefixOf_append (topName ++ ".") name)

theorem isRoot_of_isOwn {name : String} (h : IsOwn name) : isRoot name = false := by
  refine Bool.eq_false_iff.mpr fun hroot => ?_
  have hname : name = "" ∨ name = "root" := by simpa [isRoot] using hroot
  rcases h with rfl | h
  · exact absurd hroot (by decide)
  · rcases hname with rfl | rfl
    · exact absurd h (by decide)
    · exact absurd h (by decide)

/-! ## Changes of one logger -/

variable {r r' : Registry}

/-- The names of all loggers, in the order in which they were made. -/
def names (r : Registry) : List String := r.loggers.map Prod.fst

section Update

variable (r) (name : String) (f : Logger → Logger)

@[simp] theorem handedOut_update : (r.update name f).handedOut = r.handedOut := by
  unfold update
  split
  · rfl
  · split <;> rfl

@[simp] theorem default_update : (r.update name f).default = r.default := by
  unfold update
  split
  · rfl
  · split <;> rfl

@[simp] theorem blocks_update : (r.update name f).blocks = r.blocks := by
  unfold update
  split
  · rfl
  · split <;> rfl

/-- A logger is made at the end of the list, where there is none of the name. -/
theorem names_update : (r.update name f).names = r.names ∨
    r.logger? name = none ∧ (r.update name f).names = r.names ++ [name] := by
  unfold update
  split
  · exact .inl rfl
  · split
    · left
      rw [names, names, List.map_map]
      refine List.map_congr_left fun entry _ => ?_
      dsimp only [Function.comp]
      split <;> rfl
    · next hnone => exact .inr ⟨Option.not_isSome_iff_eq_none.mp hnone, List.map_append⟩

/-- No logger is ever lost. -/
theorem names_prefix_update : r.names <+: (r.update name f).names := by
  rcases names_update r name f with hsame | ⟨-, hmade⟩
  · exact hsame ▸ List.prefix_rfl
  · exact hmade ▸ List.prefix_append _ _

end Update

/-- What a change of one logger does to each. -/
theorem logger?_update {name : String} (hroot : isRoot name = false) (f : Logger → Logger)
    (other : String) : (r.update name f).logger? other =
      if other = name then some (f ((r.logger? name).getD fresh)) else r.logger? other := by
  unfold update
  rw [if_neg (Bool.eq_false_iff.mp hroot)]
  cases hlogger : r.logger? name with
  | some l =>
    rw [Option.isSome_some, if_pos rfl]
    refine (lookup_map_update name f r.loggers other).trans ?_
    split
    · next h =>
      subst h
      exact congrArg (Option.map f) hlogger
    · exact Option.map_id' ..
  | none =>
    rw [Option.isSome_none, if_neg Bool.false_ne_true]
    show List.lookup other (r.loggers ++ [(name, f fresh)]) = _
    rw [List.lookup_append]
    by_cases h : other = name
    · subst h
      have hnone : List.lookup other r.loggers = none := hlogger
      rw [hnone, if_pos rfl]
      simp
    · rw [if_neg h]
      simp [List.lookup_cons, beq_false_of_ne h, logger?]

/-- Another name's logger stays as it is; that is so for the root as well. -/
theorem logger?_update_of_ne {name other : String} (hne : other ≠ name) (f : Logger → Logger) :
    (r.update name f).logger? other = r.logger? other := by
  cases hroot : isRoot name with
  | true =>
    unfold update
    rw [if_pos hroot]
    rfl
  | false => rw [logger?_update hroot, if_neg hne]

/-! ## Changes of all loggers that were handed out -/

theorem logger?_foldl_update (f : Logger → Logger) {names : List String} (hnodup : names.Nodup)
    (hroot : ∀ name ∈ names, isRoot name = false) (other : String) :
    (names.foldl (fun r name => r.update name f) r).logger? other =
      if other ∈ names then some (f ((r.logger? other).getD fresh)) else r.logger? other := by
  induction names generalizing r with
  | nil => rfl
  | cons name names ih =>
    obtain ⟨hfirst, hnodup⟩ := List.nodup_cons.mp hnodup
    rw [List.foldl_cons, ih hnodup fun name hname => hroot name (List.mem_cons_of_mem _ hname),
      logger?_update (hroot name List.mem_cons_self)]
    by_cases heq : other = name
    · subst heq
      simp [hfirst]
    · simp [heq]

section UpdateAll

variable (r) (f : Logger → Logger)

/-- What no change of one logger affects is not affected by a change of all. -/
theorem foldl_update_eq {β : Type} (g : Registry → β)
    (hg : ∀ r name, g (update r name f) = g r) (names : List String) :
    g (names.foldl (fun r name => r.update name f) r) = g r := by
  induction names generalizing r with
  | nil => rfl
  | cons name names ih => rw [List.foldl_cons, ih, hg]

@[simp] theorem handedOut_updateAll : (r.updateAll f).handedOut = r.handedOut :=
  foldl_update_eq r f handedOut (fun _ _ => handedOut_update ..) _

@[simp] theorem default_updateAll : (r.updateAll f).default = r.default :=
  foldl_update_eq r f default (fun _ _ => default_update ..) _

@[simp] theorem blocks_updateAll : (r.updateAll f).blocks = r.blocks :=
  foldl_update_eq r f blocks (fun _ _ => blocks_update ..) _

theorem names_prefix_updateAll : r.names <+: (r.updateAll f).names := by
  unfold updateAll
  induction r.handedOut generalizing r with
  | nil => exact List.prefix_rfl
  | cons name names ih => exact (names_prefix_update r name f).trans (ih _)

end UpdateAll

end Registry

/-! ## Runs -/

/-- What may happen to the loggers. -/
inductive Operation where
  | get (request : Option String)
  | setLevel (level : LevelRequest)
  | configure (level : LevelRequest) (format stream : Option String)
  /-- A block with a level of its own is entered. -/
  | enter (level : LevelRequest)
  /-- The innermost block is left, by an exception or not. -/
  | leave
  /-- Other code gives a logger a level and a handler. -/
  | foreign (name : String) (level : Int) (stream : String)

namespace Operation

/-- Whether other code keeps to loggers that are not the program's. -/
def Permitted : Operation → Prop
  | foreign name _ _ => ¬ Registry.IsOwn name
  | _ => True

/-- Whether no block is entered or left. -/
def Plain : Operation → Prop
  | enter _ | leave => False
  | _ => True

/-- Whether all blocks that are entered are left, and no others. -/
inductive Balanced : List Operation → Prop where
  | nil : Balanced []
  | plain {op : Operation} {ops : List Operation} : op.Plain → Balanced ops → Balanced (op :: ops)
  | block {level : LevelRequest} {inner ops : List Operation} : Balanced inner → Balanced ops →
      Balanced (enter level :: (inner ++ leave :: ops))

end Operation

namespace Registry

/-- What an operation does. -/
def perform (r : Registry) : Operation → Except Refusal Unit × Registry
  | .get request => r.get (fullName request)
  | .setLevel level => r.setLevel level
  | .configure level format stream => r.configure level format stream
  | .enter level => r.push level
  | .leave => r.pop
  | .foreign name level stream => (.ok (), r.attach name level stream)

/-- Operations that are all granted lead from one state to another. -/
inductive Run : Registry → List Operation → Registry → Prop where
  | done {r : Registry} : Run r [] r
  | next {r r' r'' : Registry} {op : Operation} {ops : List Operation} : op.Permitted →
      r.perform op = (.ok (), r') → Run r' ops r'' → Run r (op :: ops) r''

variable {r r' : Registry}

theorem Run.of_append {ops more : List Operation} (h : Run r (ops ++ more) r') :
    ∃ r₁, Run r ops r₁ ∧ Run r₁ more r' := by
  induction ops generalizing r with
  | nil => exact ⟨r, .done, h⟩
  | cons op ops ih =>
    cases h with
    | next hpermitted hperform hrun =>
      obtain ⟨r₁, hfirst, hrest⟩ := ih hrun
      exact ⟨r₁, .next hpermitted hperform hfirst, hrest⟩

/-! ## What is kept -/

/-- A logger with a level and one handler that has the same, and that propagates nothing. -/
def single (level : Int) (format stream : String) : Logger :=
  ⟨level, [⟨level, format, stream⟩], false⟩

/-- A registry whose loggers all have the level in force. -/
structure Uniform (r : Registry) (n : Int) : Prop where
  default : r.default = .number n
  blocks : ∀ setting ∈ r.blocks, ∃ k, setting = .number k
  own : ∀ name ∈ r.handedOut, IsOwn name
  nodup : r.handedOut.Nodup
  /-- Nobody else has made a logger of the program. -/
  handed : ∀ name, IsOwn name → (r.logger? name).isSome → name ∈ r.handedOut
  logger : ∀ name ∈ r.handedOut, ∃ format stream, r.logger? name = some (single n format stream)

/-- What a granted operation leads to: the loggers have one level again, and those there were are
in their places. -/
structure LeadsTo (r r' : Registry) (n : Int) : Prop where
  uniform : r'.Uniform n
  names : r.names <+: r'.names
  handedOut : r.handedOut <+: r'.handedOut

theorem uniform_empty (n : Int) : (empty (.number n)).Uniform n where
  default := rfl
  blocks _ h := nomatch h
  own _ h := nomatch h
  nodup := List.nodup_nil
  handed _ _ h := nomatch h
  logger _ h := nomatch h

variable {n k : Int} {name : String}

theorem Uniform.isRoot (h : r.Uniform n) : ∀ name ∈ r.handedOut, isRoot name = false :=
  fun name hname => isRoot_of_isOwn (h.own name hname)

/-- A change of all loggers that agrees with a new level in force. -/
theorem Uniform.updateAll (h : r.Uniform n) {f : Logger → Logger}
    (hf : ∀ format stream, ∃ format' stream', f (single n format stream) =
      single k format' stream') :
    LeadsTo r ({ r with default := .number k }.updateAll f) k := by
  have hlookup (other : String) : ({ r with default := .number k }.updateAll f).logger? other =
      if other ∈ r.handedOut then some (f ((r.logger? other).getD fresh))
      else r.logger? other :=
    logger?_foldl_update f h.nodup h.isRoot other
  refine ⟨?_, names_prefix_updateAll { r with default := .number k } f, by simp⟩
  exact {
    default := by simp
    blocks := by simpa using h.blocks
    own := by simpa using h.own
    nodup := by simpa using h.nodup
    handed := fun name hown hsome => by
      rw [hlookup] at hsome
      rw [handedOut_updateAll]
      split at hsome
      · assumption
      · exact h.handed name hown hsome
    logger := fun name hname => by
      rw [handedOut_updateAll] at hname
      obtain ⟨format, stream, hlogger⟩ := h.logger name hname
      obtain ⟨format', stream', hf⟩ := hf format stream
      exact ⟨format', stream', by rw [hlookup, if_pos hname, hlogger, Option.getD_some, hf]⟩ }

theorem eq_number_of_accept {setting : Level} (h : setting.accept = .ok n) :
    setting = .number n := by
  cases setting with
  | number k =>
    cases h
    rfl
  | plainFormat | styles => cases h

/-- The state with another setting for new loggers. -/
def startingWith (r : Registry) (setting : Level) : Registry := { r with default := setting }

/-- Where loggers were handed out a level is refused if they do not take it. -/
theorem setLevel_eq {request : LevelRequest} {setting : Level}
    (hsetting : Level.ofRequest request = .ok setting) (hne : r.handedOut ≠ []) :
    r.setLevel request = match setting.accept with
      | .error refusal => (.error refusal, r.startingWith setting)
      | .ok n => (.ok (), (r.startingWith setting).updateAll fun l : Logger =>
          { l with level := n, handlers := l.handlers.map fun h : Handler =>
            { h with level := n } }) := by
  obtain ⟨first, rest, hhandedOut⟩ := List.exists_cons_of_ne_nil hne
  obtain ⟨root, loggers, handedOut, default, blocks⟩ := r
  obtain rfl : handedOut = first :: rest := hhandedOut
  unfold setLevel
  rw [hsetting]
  rfl

/-- A level that is set is a number, and all loggers and handlers take it. -/
theorem setLevel_ok {level : LevelRequest} (hne : r.handedOut ≠ [])
    (h : r.setLevel level = (.ok (), r')) :
    ∃ k, Level.ofRequest level = .ok (.number k) ∧
      r' = { r with default := .number k }.updateAll fun l : Logger =>
        { l with level := k, handlers := l.handlers.map fun h : Handler =>
          { h with level := k } } := by
  cases hsetting : Level.ofRequest level with
  | error refusal =>
    unfold setLevel at h
    rw [hsetting] at h
    cases h
  | ok setting =>
    rw [setLevel_eq hsetting hne] at h
    split at h
    · cases h
    · next k hk =>
      obtain rfl := eq_number_of_accept hk
      cases h
      exact ⟨k, rfl, rfl⟩

theorem Uniform.setLevel {level : LevelRequest} (h : r.Uniform n) (hne : r.handedOut ≠ [])
    (hset : r.setLevel level = (.ok (), r')) :
    ∃ k, Level.ofRequest level = .ok (.number k) ∧ LeadsTo r r' k ∧ r'.blocks = r.blocks := by
  obtain ⟨k, hk, rfl⟩ := setLevel_ok hne hset
  exact ⟨k, hk, h.updateAll fun format stream => ⟨format, stream, rfl⟩, by simp⟩

/-- The format that a request for one stands for. -/
def formatOf (format : Option String) : String :=
  if format.getD defaultFormat = "" then messageFormat else format.getD defaultFormat

/-- What a refused configuration makes of the first logger. -/
def stripped (setting : Level) (l : Logger) : Logger :=
  { l with
    level := match setting.accept with
      | .ok n => n
      | .error _ => l.level
    handlers := [] }

/-- Where loggers were handed out a configuration is refused by the first of them. -/
theorem configure_eq {request : LevelRequest} {setting : Level}
    (hsetting : Level.ofRequest request = .ok setting) {first : String} {rest : List String}
    (hhandedOut : r.handedOut = first :: rest) (format stream : Option String) :
    r.configure request format stream = match setting.accept with
      | .error refusal =>
        (.error refusal, (r.startingWith setting).update first (stripped setting))
      | .ok n =>
        if Template.isAccepted (formatOf format).toList then
          (.ok (), (r.startingWith setting).updateAll fun l : Logger =>
            { l with level := n, handlers := [⟨n, formatOf format, stream.getD defaultStream⟩] })
        else (.error .badFormat, (r.startingWith setting).update first (stripped setting)) := by
  obtain ⟨root, loggers, handedOut, default, blocks⟩ := r
  obtain rfl : handedOut = first :: rest := hhandedOut
  unfold configure
  rw [hsetting]
  dsimp only
  cases haccept : setting.accept with
  | error cause =>
    have hstripped : stripped setting = fun l : Logger => { l with handlers := [] } := by
      funext l
      simp only [stripped, haccept]
    rw [hstripped]
    rfl
  | ok n =>
    have hstripped : stripped setting =
        fun l : Logger => { l with level := n, handlers := [] } := by
      funext l
      simp only [stripped, haccept]
    rw [hstripped]
    rfl

/-- Loggers that are configured all take the level and one new handler each. -/
theorem configure_ok {level : LevelRequest} {format stream : Option String}
    (hne : r.handedOut ≠ []) (h : r.configure level format stream = (.ok (), r')) :
    ∃ (k : Int) (handler : Handler), handler.level = k ∧
      r' = { r with default := .number k }.updateAll fun l : Logger =>
        { l with level := k, handlers := [handler] } := by
  obtain ⟨first, rest, hhandedOut⟩ := List.exists_cons_of_ne_nil hne
  cases hsetting : Level.ofRequest level with
  | error refusal =>
    unfold configure at h
    rw [hsetting] at h
    cases h
  | ok setting =>
    rw [configure_eq hsetting hhandedOut] at h
    split at h
    · cases h
    · next k hk =>
      obtain rfl := eq_number_of_accept hk
      split at h
      · cases h
        exact ⟨k, _, rfl, rfl⟩
      · cases h

theorem Uniform.configure {level : LevelRequest} {format stream : Option String}
    (h : r.Uniform n) (hne : r.handedOut ≠ [])
    (hconfigure : r.configure level format stream = (.ok (), r')) :
    ∃ k, LeadsTo r r' k ∧ r'.blocks = r.blocks := by
  obtain ⟨k, handler, rfl, rfl⟩ := configure_ok hne hconfigure
  exact ⟨handler.level, h.updateAll fun _ _ => ⟨handler.format, handler.stream, rfl⟩, by simp⟩

/-- A block that is entered remembers the setting from before it. -/
theorem push_ok {level : LevelRequest} (h : r.push level = (.ok (), r')) :
    ∃ r₁, r.setLevel level = (.ok (), r₁) ∧ r' = { r₁ with blocks := r.default :: r₁.blocks } := by
  unfold push at h
  split at h
  · next r₁ hset =>
    cases h
    exact ⟨r₁, hset, rfl⟩
  · next hrefused => exact absurd h (hrefused r')

theorem pop_ok (h : r.pop = (.ok (), r')) :
    ∃ setting blocks, r.blocks = setting :: blocks ∧
      { r with blocks }.setLevel setting.request = (.ok (), r') := by
  unfold pop at h
  split at h
  · cases h
  · next setting blocks hblocks => exact ⟨setting, blocks, hblocks, h⟩

theorem Uniform.push {level : LevelRequest} (h : r.Uniform n) (hne : r.handedOut ≠ [])
    (hpush : r.push level = (.ok (), r')) :
    ∃ k, LeadsTo r r' k ∧ r'.blocks = .number n :: r.blocks := by
  obtain ⟨r₁, hset, rfl⟩ := push_ok hpush
  obtain ⟨k, -, ⟨huniform, hnames, hhandedOut⟩, hblocks⟩ := h.setLevel hne hset
  have hnumber : ∀ setting ∈ r.default :: r₁.blocks, ∃ k, setting = .number k := by
    rw [h.default, hblocks]
    exact List.forall_mem_cons.mpr ⟨⟨n, rfl⟩, h.blocks⟩
  refine ⟨k, ⟨{ huniform with blocks := hnumber }, hnames, hhandedOut⟩, ?_⟩
  rw [← h.default, ← hblocks]

/-- The setting that is asked for again when a block is left is a level that was in force, so it is
granted. -/
theorem Uniform.pop (h : r.Uniform n) (hne : r.handedOut ≠ []) (hpop : r.pop = (.ok (), r')) :
    ∃ k blocks, r.blocks = .number k :: blocks ∧ LeadsTo r r' k ∧ r'.blocks = blocks := by
  obtain ⟨setting, blocks, hblocks, hset⟩ := pop_ok hpop
  have hnumbers := h.blocks
  rw [hblocks] at hnumbers
  obtain ⟨⟨k, rfl⟩, hrest⟩ := List.forall_mem_cons.mp hnumbers
  have hinner : { r with blocks }.Uniform n := { h with blocks := hrest }
  obtain ⟨_, hk, hleads, hsame⟩ := hinner.setLevel hne hset
  cases hk
  exact ⟨k, blocks, hblocks, ⟨hleads.uniform, hleads.names, hleads.handedOut⟩, hsame⟩

/-- Handing out a logger that nobody has made before. -/
theorem get_of_new (hroot : Registry.isRoot name = false) (hnew : name ∉ r.handedOut)
    (hnone : r.logger? name = none) : r.get name = match r.default.accept with
      | .error refusal => (.error refusal, r.update name id)
      | .ok level => (.ok (), { (r.update name id).update name fun _ =>
          single level defaultFormat defaultStream with handedOut := r.handedOut ++ [name] }) := by
  have hfresh : ((r.update name id).logger? name).getD fresh = fresh := by
    rw [logger?_update hroot, if_pos rfl, hnone]
    rfl
  unfold Registry.get
  rw [if_neg (by simpa using hnew)]
  simp only [hfresh, default_update, handedOut_update]
  cases r.default.accept <;> rfl

theorem get_of_handedOut (hname : name ∈ r.handedOut) : r.get name = (.ok (), r) :=
  if_pos (by simpa using hname)

theorem Uniform.logger?_of_new (h : r.Uniform n) (hown : IsOwn name) (hnew : name ∉ r.handedOut) :
    r.logger? name = none := by
  cases hlogger : r.logger? name with
  | none => rfl
  | some l => exact absurd (h.handed name hown (by rw [hlogger]; rfl)) hnew

theorem Uniform.get (h : r.Uniform n) (hown : IsOwn name) (hget : r.get name = (.ok (), r')) :
    LeadsTo r r' n ∧ r'.blocks = r.blocks ∧ name ∈ r'.handedOut := by
  by_cases hname : name ∈ r.handedOut
  · rw [get_of_handedOut hname] at hget
    cases hget
    exact ⟨⟨h, List.prefix_rfl, List.prefix_rfl⟩, rfl, hname⟩
  · have hroot := isRoot_of_isOwn hown
    rw [get_of_new hroot hname (h.logger?_of_new hown hname), h.default] at hget
    cases hget
    have hlookup (other : String) :
        ((r.update name id).update name fun _ =>
          single n defaultFormat defaultStream).logger? other =
          if other = name then some (single n defaultFormat defaultStream)
          else r.logger? other := by
      rw [logger?_update hroot, logger?_update hroot]
      split <;> rfl
    have hnames : ∀ other, other ∈ r.handedOut ++ [name] ↔ other ∈ r.handedOut ∨ other = name :=
      fun other => by simp
    have hfirst : r.names <+: ((r.update name id).update name fun _ =>
        single n defaultFormat defaultStream).names :=
      (names_prefix_update r name id).trans (names_prefix_update _ name _)
    refine ⟨⟨?_, hfirst, List.prefix_append _ _⟩, by simp,
      List.mem_append_right _ List.mem_cons_self⟩
    exact {
      default := by simpa using h.default
      blocks := by simpa using h.blocks
      own := fun other hother => by
        rcases (hnames other).mp hother with hother | rfl
        · exact h.own other hother
        · exact hown
      nodup := by
        refine List.nodup_append.mpr ⟨h.nodup, List.pairwise_singleton .., ?_⟩
        rintro other hother _ hmem rfl
        exact hname (List.mem_singleton.mp hmem ▸ hother)
      handed := fun other hother hsome => by
        refine (hnames other).mpr (or_iff_not_imp_right.mpr fun hne => h.handed other hother ?_)
        have hsame := hlookup other
        rw [if_neg hne] at hsame
        exact hsame ▸ hsome
      logger := fun other hother => by
        have hlogger := hlookup other
        split at hlogger
        · exact ⟨_, _, hlogger⟩
        · next hne =>
          obtain ⟨format, stream, hold⟩ := h.logger other
            (((hnames other).mp hother).resolve_right hne)
          exact ⟨format, stream, hlogger.trans hold⟩ }

/-- What other code does to other loggers does not show in those of the program. -/
theorem Uniform.attach (h : r.Uniform n) (hforeign : ¬ IsOwn name) (level : Int)
    (stream : String) :
    LeadsTo r (r.attach name level stream) n ∧
      (r.attach name level stream).blocks = r.blocks := by
  have hlookup {other : String} (hother : IsOwn other) :
      (r.attach name level stream).logger? other = r.logger? other :=
    logger?_update_of_ne (fun heq : other = name => hforeign (heq ▸ hother)) _
  unfold Registry.attach at hlookup ⊢
  refine ⟨⟨?_, names_prefix_update .., by simp⟩, by simp⟩
  exact {
    default := by simpa using h.default
    blocks := by simpa using h.blocks
    own := by simpa using h.own
    nodup := by simpa using h.nodup
    handed := fun other hother hsome => by
      rw [hlookup hother] at hsome
      simpa using h.handed other hother hsome
    logger := fun other hother => by
      rw [handedOut_update] at hother
      rw [hlookup (h.own other hother)]
      exact h.logger other hother }

/-- What every granted operation leads to. -/
theorem Uniform.perform {op : Operation} (h : r.Uniform n) (hne : r.handedOut ≠ [])
    (hpermitted : op.Permitted) (hperform : r.perform op = (.ok (), r')) :
    ∃ k, LeadsTo r r' k ∧ (op.Plain → r'.blocks = r.blocks) := by
  cases op with
  | get request =>
    obtain ⟨hleads, hblocks, -⟩ := h.get (isOwn_fullName request) hperform
    exact ⟨n, hleads, fun _ => hblocks⟩
  | setLevel level =>
    obtain ⟨k, -, hleads, hblocks⟩ := h.setLevel hne hperform
    exact ⟨k, hleads, fun _ => hblocks⟩
  | configure level format stream =>
    obtain ⟨k, hleads, hblocks⟩ := h.configure hne hperform
    exact ⟨k, hleads, fun _ => hblocks⟩
  | enter level =>
    obtain ⟨k, hleads, -⟩ := h.push hne hperform
    exact ⟨k, hleads, fun hplain => hplain.elim⟩
  | leave =>
    obtain ⟨k, -, -, hleads, -⟩ := h.pop hne hperform
    exact ⟨k, hleads, fun hplain => hplain.elim⟩
  | foreign name level stream =>
    cases hperform
    obtain ⟨hleads, hblocks⟩ := h.attach hpermitted level stream
    exact ⟨n, hleads, fun _ => hblocks⟩

theorem LeadsTo.trans {r'' : Registry} (h : LeadsTo r r' n) (h' : LeadsTo r' r'' k) :
    LeadsTo r r'' k :=
  ⟨h'.uniform, h.names.trans h'.names, h.handedOut.trans h'.handedOut⟩

theorem LeadsTo.handedOut_ne_nil (h : LeadsTo r r' n) (hne : r.handedOut ≠ []) :
    r'.handedOut ≠ [] := fun hnil => hne (List.prefix_nil.mp (hnil ▸ h.handedOut))

/-- All loggers have the level in force in every state that a run reaches. -/
theorem Uniform.run {ops : List Operation} (h : r.Uniform n) (hne : r.handedOut ≠ [])
    (hrun : Run r ops r') : ∃ k, LeadsTo r r' k := by
  induction hrun generalizing n with
  | done => exact ⟨n, h, List.prefix_rfl, List.prefix_rfl⟩
  | next hpermitted hperform _ ih =>
    obtain ⟨k, hleads, -⟩ := h.perform hne hpermitted hperform
    obtain ⟨l, hrest⟩ := ih hleads.uniform (hleads.handedOut_ne_nil hne)
    exact ⟨l, hleads.trans hrest⟩

/-- A block is left with the level and the blocks from before it, as long as what happens in it
keeps to the open blocks. -/
theorem Uniform.block {level : LevelRequest} {inner : List Operation} (h : r.Uniform n)
    (hne : r.handedOut ≠ []) (hrun : Run r (.enter level :: (inner ++ [.leave])) r')
    (hinner : ∀ {r₁ r₂ : Registry} {k : Int}, r₁.Uniform k → r₁.handedOut ≠ [] →
      Run r₁ inner r₂ → r₂.blocks = r₁.blocks) :
    LeadsTo r r' n ∧ r'.blocks = r.blocks := by
  cases hrun with
  | next _ henter hrun =>
    obtain ⟨k, hentered, hpushed⟩ := h.push hne henter
    obtain ⟨r₂, hmiddle, hlast⟩ := hrun.of_append
    have hne₁ := hentered.handedOut_ne_nil hne
    obtain ⟨l, hkept⟩ := hentered.uniform.run hne₁ hmiddle
    cases hlast with
    | next _ hleave hdone =>
      cases hdone
      obtain ⟨_, _, hblocks, hleft, hpopped⟩ :=
        hkept.uniform.pop (hkept.handedOut_ne_nil hne₁) hleave
      rw [hinner hentered.uniform hne₁ hmiddle, hpushed] at hblocks
      cases hblocks
      exact ⟨(hentered.trans hkept).trans hleft, hpopped⟩

theorem isOwn_solverName : IsOwn solverName := .inr (by decide +kernel)

theorem isOwn_regressionName : IsOwn regressionName := .inr (by decide +kernel)

/-- A start asks for the loggers of the two modules, one after the other. -/
theorem start_ok {environment : Option String} (h : start environment = .ok r) :
    ∃ setting r₁, (empty setting).get solverName = (.ok (), r₁) ∧
      r₁.get regressionName = (.ok (), r) := by
  unfold start at h
  dsimp only at h
  split at h
  · cases h
  · next r₁ hfirst =>
    split at h
    · cases h
    · next r₂ hsecond =>
      cases h
      exact ⟨_, r₁, hfirst, hsecond⟩

/-- Where a program has started, its first loggers were handed out with a level that is a
number. -/
theorem uniform_start {environment : Option String} (h : start environment = .ok r) :
    ∃ n, r.Uniform n ∧ solverName ∈ r.handedOut := by
  obtain ⟨setting, r₁, hfirst, hsecond⟩ := start_ok h
  have hnew := get_of_new (r := empty setting) (isRoot_of_isOwn isOwn_solverName)
    List.not_mem_nil rfl
  obtain ⟨n, rfl⟩ : ∃ n, setting = .number n := by
    cases setting with
    | number n => exact ⟨n, rfl⟩
    | plainFormat | styles =>
      rw [hnew] at hfirst
      cases hfirst
  obtain ⟨hleads, -, hmem⟩ := (uniform_empty n).get isOwn_solverName hfirst
  obtain ⟨hnext, -, -⟩ := hleads.uniform.get isOwn_regressionName hsecond
  exact ⟨n, hnext.uniform, hnext.handedOut.subset hmem⟩

/-! ## Records -/

/-- The place among all loggers of the one that a request is given. -/
def place (r : Registry) (request : Option String) : Nat := r.names.idxOf (fullName request)

/-- The loggers after a start for which the environment asks for nothing. -/
def started : Registry where
  root := ⟨Level.warning, [], true⟩
  loggers := [solverName, regressionName].map (·, single 30 defaultFormat defaultStream)
  handedOut := [solverName, regressionName]
  default := .number 30
  blocks := []

theorem start_none : start none = .ok started := rfl

/-- A format that asks for the time. -/
def timeFormat : String := "%(asctime)s %(message)s"

/-- The loggers after a start and a configuration with that format. -/
def timed : Registry := { started with
  loggers := [solverName, regressionName].map (·, single 30 timeFormat defaultStream) }

end Registry

end Journal

end ActiveSet
