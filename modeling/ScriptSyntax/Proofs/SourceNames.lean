import ScriptSyntax.Command.Report
import ScriptSyntax.Proofs.Relocation

/-!
The name of a source says nothing about it. Every position carries the name, and
so do tree, fault and diagnostic; but scanning the source under another name gives
the same lexemes at the same offsets, and what is printed shows the name in one
line of the diagnostic only. Hence a run that reads a file and a run that reads
the same bytes from standard input print the same.
-/

namespace ScriptSyntax

open ScriptSyntax.Tree

/-- The same offset in a source of another name. -/
def Position.rename (name : String) (position : Position) : Position :=
  { position with file := name }

/-- A move to other sources, at the offsets that the positions have. -/
def KeepsOffsets (move : Position → Position) : Prop :=
  ∀ position, (move position).offset = position.offset

theorem keepsOffsets_rename (name : String) : KeepsOffsets (.rename name) := fun _ => rfl

/-- Scans of one source under two names differ in the name. -/
theorem scan_rename (source : String) (file other : Option String) :
    scan source other =
      (scan source file).map (Lexeme.relocate (.rename (other.getD defaultFile))) := by
  apply eq_map_relocate_of_tiles (fun _ => rfl) (tiles_scan source file) (tiles_scan source other)
  rw [scan_segments, scan_segments]

/-! What is printed of moved lexemes shows at most their offsets. -/

section Printed

variable {move : Position → Position}

theorem lexemesOutline_relocate (move : Position → Position) (lexemes : List Lexeme) :
    lexemesOutline (lexemes.map (Lexeme.relocate move)) = lexemesOutline lexemes := by
  have hlexeme (lexeme : Lexeme) : (lexeme.relocate move).outline = lexeme.outline := by
    cases lexeme <;> rfl
  rw [lexemesOutline, lexemesOutline, List.map_map]
  exact congrArg unlines (List.map_congr_left fun lexeme _ => hlexeme lexeme)

theorem Tree.isTrivia_relocate (tree : Tree) : (tree.relocate move).isTrivia = tree.isTrivia := by
  cases tree with
  | node kind children => rfl
  | leaf l =>
      cases l with
      | fault f => rfl
      | lexeme l =>
          simp only [relocate, Leaf.relocate, isTrivia, Leaf.isTrivia, Lexeme.isTrivia,
            Lexeme.significant?_relocate, Option.isNone_map]

theorem Fault.display_relocate (hmove : KeepsOffsets move) (fault : Fault) :
    (fault.relocate move).display = fault.display := by
  obtain ⟨cause, token, position⟩ := fault
  cases token with
  | none => rfl
  | some token =>
      simp only [display, relocate, Option.map_some, Token.relocate, Span.relocate, hmove _]
      rfl

theorem Leaf.outline_relocate (hmove : KeepsOffsets move) (leaf : Leaf) :
    (leaf.relocate move).outline = leaf.outline := by
  cases leaf with
  | lexeme l => cases l <;> rfl
  | fault f => simp only [relocate, outline, Fault.display_relocate hmove]

mutual
theorem Tree.outlineLines_relocate {tree : Tree}
    (h : ∀ leaf ∈ tree.leaves, (leaf.relocate move).outline = leaf.outline) (trivia : Bool)
    (depth : Nat) :
    (tree.relocate move).outlineLines trivia depth = tree.outlineLines trivia depth := by
  cases tree with
  | leaf l => rw [relocate, outlineLines, outlineLines, h l (by simp [leaves])]
  | node kind children =>
      rw [relocate, outlineLines, outlineLines, outlineLinesOfAll_relocate h]

theorem Tree.outlineLinesOfAll_relocate {trees : List Tree}
    (h : ∀ leaf ∈ leavesOfAll trees, (leaf.relocate move).outline = leaf.outline) (trivia : Bool)
    (depth : Nat) :
    outlineLinesOfAll trivia depth (relocateAll move trees) =
      outlineLinesOfAll trivia depth trees := by
  cases trees with
  | nil => rfl
  | cons tree trees =>
      obtain ⟨htree, htrees⟩ := List.forall_mem_append.mp h
      rw [relocateAll, outlineLinesOfAll, outlineLinesOfAll, isTrivia_relocate,
        outlineLines_relocate htree, outlineLinesOfAll_relocate htrees]
end

/-- A node whose leaves look the same once moved has the same outline once moved. -/
theorem Node.outline_relocate {node : Node}
    (h : ∀ leaf ∈ node.leaves, (leaf.relocate move).outline = leaf.outline) (trivia : Bool) :
    (node.relocate move).outline trivia = node.outline trivia := by
  have hlines : (node.toTree.relocate move).outlineLines trivia 0 =
      node.toTree.outlineLines trivia 0 := by
    apply Tree.outlineLines_relocate
    exact h
  exact congrArg unlines hlines

end Printed

/-! One source under two names. -/

section Names

variable (source : String) (file other : Option String)

theorem fault_rename :
    (parsePartial (scan source other)).2 =
      (parsePartial (scan source file)).2.map
        (Fault.relocate (.rename (other.getD defaultFile))) := by
  rw [scan_rename source file other, parsePartial_relocate]

/-- The fault of a source is placed in that source. -/
theorem file_of_fault {fault : Fault} (h : (parsePartial (scan source file)).2 = some fault) :
    fault.position.file = file.getD defaultFile := by
  have hself := fault_rename source file file
  rw [h] at hself
  exact congrArg (·.position.file) (Option.some.inj hself)

theorem lexemesOutline_rename :
    lexemesOutline (scan source other) = lexemesOutline (scan source file) := by
  rw [scan_rename source file other, lexemesOutline_relocate]

theorem outline_rename (trivia : Bool) :
    (parsePartial (scan source other)).1.outline trivia =
      (parsePartial (scan source file)).1.outline trivia := by
  rw [scan_rename source file other, parsePartial_relocate]
  exact Node.outline_relocate (fun leaf _ => leaf.outline_relocate (keepsOffsets_rename _)) trivia

end Names

/-- Two texts that are the same but for the line that names the source. -/
def DifferInName (name other text text' : String) : Prop :=
  ∃ header rest, text = header ++ "-> " ++ name ++ "\n" ++ rest ∧
    text' = header ++ "-> " ++ other ++ "\n" ++ rest

/-- Diagnostics of one fault under two names differ in the name. -/
theorem Fault.diagnostic_rename (fault : Fault) (name source : String) :
    DifferInName fault.position.file name (fault.diagnostic source)
      ((fault.relocate (.rename name)).diagnostic source) :=
  ⟨fault.headline, _, rfl, rfl⟩

namespace Command

/-! The path among the arguments. -/

namespace Options

/-- The same options with this path, or with none. -/
def withPath (options : Options) (path : Option String) : Options := { options with path }

theorem withPath_withPath (options : Options) (path other : Option String) :
    (options.withPath path).withPath other = options.withPath other := rfl

theorem withPath_eq_self {options : Options} {path : Option String} (h : options.path = path) :
    options.withPath path = options := h ▸ rfl

@[simp] theorem withPath_path (options : Options) (path : Option String) :
    (options.withPath path).path = path := rfl

@[simp] theorem withPath_tokens (options : Options) (path : Option String) :
    (options.withPath path).tokens = options.tokens := rfl

@[simp] theorem withPath_trivia (options : Options) (path : Option String) :
    (options.withPath path).trivia = options.trivia := rfl

theorem addLong_withPath (options : Options) (path : Option String) (argument : String) :
    (options.withPath path).addLong argument =
      (options.addLong argument).map (withPath · path) := by
  simp only [addLong, apply_ite (Except.map (withPath · path))]
  rfl

theorem addShort_withPath (options : Options) (path : Option String) (letters : List Char) :
    (options.withPath path).addShort letters =
      (options.addShort letters).map (withPath · path) := by
  fun_induction addShort options letters with
  | case1 => rfl
  | case2 options letters ih => exact ih
  | case3 => rfl
  | case4 => rfl
  | case5 options letter letters hv hh hV =>
      rw [addShort.eq_5 _ _ _ hv hh hV]
      rfl

/-- An argument is a flag, which acts alike whatever the path is, or it is a path. -/
theorem add_flag_or_path (argument : String) :
    (∀ (options : Options) (path : Option String),
      (options.withPath path).add argument = (options.add argument).map (withPath · path)) ∨
    ∀ options : Options, options.add argument = options.addPath argument := by
  simp only [add]
  split
  · exact .inl fun options path => addLong_withPath options path argument
  · exact .inl fun options path => addShort_withPath options path _
  · exact .inr fun options => rfl

theorem path_of_flag {argument : String}
    (hflag : ∀ (options : Options) (path : Option String),
      (options.withPath path).add argument = (options.add argument).map (withPath · path))
    {options options' : Options} (h : options.add argument = .ok options') :
    options'.path = options.path := by
  have hself : options.add argument = (options.add argument).map (withPath · options.path) :=
    hflag options options.path
  rw [h] at hself
  have hkept : options' = options'.withPath options.path := Except.ok.inj hself
  rw [hkept]
  rfl

theorem addPath_eq_ok {options options' : Options} {path : String}
    (h : options.addPath path = .ok options') :
    options.path = none ∧ options' = options.withPath (some path) := by
  unfold addPath at h
  split at h
  · cases h
  · next hnone =>
      split at h
      · cases h
      · exact ⟨by simpa using hnone, (Except.ok.inj h).symm⟩

theorem bind_eq_ok {first : Except Halt Options} {next : Options → Except Halt Options}
    {options : Options} (h : first >>= next = .ok options) :
    ∃ between, first = .ok between ∧ next between = .ok options := by
  cases first with
  | error halt => cases h
  | ok between => exact ⟨between, rfl, h⟩

/-- Where a path is known, no argument is taken for one. -/
theorem foldlM_addPath_eq_ok {options options' : Options} {path : String} {arguments : List String}
    (hpath : options.path = some path) (h : arguments.foldlM addPath options = .ok options') :
    arguments = [] ∧ options' = options := by
  cases arguments with
  | nil => exact ⟨rfl, (Except.ok.inj h).symm⟩
  | cons argument arguments =>
      obtain ⟨_, hnext, -⟩ := bind_eq_ok h
      exact absurd hpath (by simp [(addPath_eq_ok hnext).1])

/-- Arguments behind the path are flags, and set the same without it. -/
theorem addAll_withoutPath {options options' : Options} {path : String} {arguments : List String}
    (hpath : options.path = some path) (h : options.addAll arguments = .ok options') :
    options'.path = some path ∧
      (options.withPath none).addAll arguments = .ok (options'.withPath none) := by
  induction arguments generalizing options with
  | nil =>
      obtain rfl := Except.ok.inj h
      exact ⟨hpath, rfl⟩
  | cons argument arguments ih =>
      rw [addAll] at h ⊢
      split at h
      · next hdashes =>
          obtain ⟨rfl, rfl⟩ := foldlM_addPath_eq_ok hpath h
          rw [if_pos hdashes]
          exact ⟨hpath, rfl⟩
      · next hdashes =>
          obtain ⟨between, hadd, hmore⟩ := bind_eq_ok h
          obtain hflag | hargument := add_flag_or_path argument
          · obtain ⟨hgiven, hnone⟩ := ih ((path_of_flag hflag hadd).trans hpath) hmore
            refine ⟨hgiven, ?_⟩
            rw [if_neg hdashes, hflag, hadd]
            exact hnone
          · rw [hargument] at hadd
            exact absurd hpath (by simp [(addPath_eq_ok hadd).1])

/-- The path among the arguments can be left out. -/
theorem addAll_leaveOut {options options' : Options} {path : String} {arguments : List String}
    (hnone : options.path = none) (h : options.addAll arguments = .ok options')
    (hpath : options'.path = some path) :
    ∃ before after, arguments = before ++ path :: after ∧
      options.addAll (before ++ after) = .ok (options'.withPath none) := by
  induction arguments generalizing options with
  | nil =>
      obtain rfl := Except.ok.inj h
      simp [hnone] at hpath
  | cons argument arguments ih =>
      rw [addAll] at h
      split at h
      · next hdashes =>
          cases arguments with
          | nil =>
              obtain rfl := Except.ok.inj h
              simp [hnone] at hpath
          | cons first more =>
              obtain ⟨between, hfirst, hmore⟩ := bind_eq_ok h
              obtain ⟨-, rfl⟩ := addPath_eq_ok hfirst
              obtain ⟨rfl, rfl⟩ := foldlM_addPath_eq_ok rfl hmore
              obtain rfl : first = path := by simpa using hpath
              refine ⟨[argument], [], rfl, ?_⟩
              rw [withPath_withPath, withPath_eq_self hnone, List.append_nil, addAll,
                if_pos hdashes]
              rfl
      · next hdashes =>
          obtain ⟨between, hadd, hmore⟩ := bind_eq_ok h
          obtain hflag | hargument := add_flag_or_path argument
          · obtain ⟨before, after, rfl, hrest⟩ := ih ((path_of_flag hflag hadd).trans hnone) hmore
            refine ⟨argument :: before, after, rfl, ?_⟩
            rw [List.cons_append, addAll, if_neg hdashes, hadd]
            exact hrest
          · rw [hargument] at hadd
            obtain ⟨-, rfl⟩ := addPath_eq_ok hadd
            obtain ⟨hgiven, hrest⟩ := addAll_withoutPath rfl hmore
            obtain rfl : argument = path := by simpa [hgiven] using hpath
            rw [withPath_withPath, withPath_eq_self hnone] at hrest
            exact ⟨[], arguments, rfl, hrest⟩

end Options

/-- Two reports that say the same of a source known by two names. -/
structure Report.SameButName (name other : String) (report report' : Report) : Prop where
  exitCode : report.exitCode = report'.exitCode
  stdout : report.stdout = report'.stdout
  stderr : report.stderr = "" ∧ report'.stderr = "" ∨
    DifferInName name other report.stderr report'.stderr

/-- What is printed about a source is the same whatever its path. -/
theorem Options.reportSource_withPath (options : Options) (path : Option String) (source : String) :
    Report.SameButName options.sourceName (options.withPath path).sourceName
      (options.reportSource source) ((options.withPath path).reportSource source) := by
  have hfault := fault_rename source (some options.sourceName)
    (some (options.withPath path).sourceName)
  have houtline := outline_rename source (some options.sourceName)
    (some (options.withPath path).sourceName) options.trivia
  have htokens := lexemesOutline_rename source (some options.sourceName)
    (some (options.withPath path).sourceName)
  constructor
  · simp only [reportSource, hfault, Option.isSome_map]
  · simp only [reportSource, withPath_tokens, withPath_trivia, htokens, houtline]
  · simp only [reportSource, hfault]
    cases hfirst : (parsePartial (scan source (some options.sourceName))).2 with
    | none => exact .inl ⟨rfl, rfl⟩
    | some fault =>
        have hfile : fault.position.file = options.sourceName := file_of_fault source _ hfirst
        rw [← hfile]
        exact .inr (Fault.diagnostic_rename fault _ source)

/-- A run that reads a file and one that reads the same from standard input. -/
theorem run_withoutPath {arguments arguments' : List String} {options : Options} {path : String}
    (h : Options.ofArguments arguments = .ok options) (hpath : options.path = some path)
    (h' : Options.ofArguments arguments' = .ok (options.withPath none))
    {folder : Folder} {content : ByteArray} {source : String}
    (hread : folder.read path = .ok content) (hsource : String.fromUTF8? content = some source)
    (stdin : ByteArray) (folder' : Folder) :
    Report.SameButName (fileName path) "stdin" (run arguments stdin folder)
      (run arguments' content folder') := by
  have hdecode : Options.decode content = .ok source := by rw [Options.decode, hsource]
  have hreport (options : Options) :
      options.report (.ok content) = options.reportSource source := by
    rw [Options.report, Except.bind, hdecode]
  have hname : options.sourceName = fileName path := by simp [Options.sourceName, hpath]
  have hrun := options.reportSource_withPath none source
  rw [hname] at hrun
  rw [run, h, run, h']
  simp only [hpath, hread, Options.withPath_path, hreport]
  exact hrun

end Command

open Command

end ScriptSyntax
