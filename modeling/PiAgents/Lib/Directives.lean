import Mathlib.Data.List.Basic

/-! Configuration files of one directive a line, `name` or `name=value`, with comments and empty
lines between them, and of settings whose value is a list of arguments with commas between them. -/

namespace PiAgents.Directives

structure Directive where
  name : String
  value : Option String
deriving DecidableEq

def Directive.line (directive : Directive) : String :=
  match directive.value with
  | none => directive.name
  | some value => directive.name ++ "=" ++ value

/-- Without a value the line is empty or a comment. -/
def readLine (line : List Char) : Option Directive :=
  if line = [] ∨ line.head? = some '#' then none
  else some
    ⟨String.ofList (line.takeWhile (· != '=')),
      if '=' ∈ line then some (String.ofList (line.dropWhile (· != '=')).tail) else none⟩

def read (text : String) : List Directive := (text.toList.splitOn '\n').filterMap readLine

/-- The lines of a file and, at its end, an empty one. -/
def rendered (comments : List String) (directives : List Directive) : String :=
  "\n".intercalate (comments ++ directives.map Directive.line ++ ["\n"])

/-- A name that a line can begin with. -/
structure Named (name : String) : Prop where
  nonempty : name.toList ≠ []
  noComment : name.toList.head? ≠ some '#'
  noEquals : '=' ∉ name.toList
  noBreak : '\n' ∉ name.toList

instance (name : String) : Decidable (Named name) :=
  decidable_of_iff (name.toList ≠ [] ∧ name.toList.head? ≠ some '#' ∧ '=' ∉ name.toList ∧
    '\n' ∉ name.toList) ⟨fun ⟨a, b, c, d⟩ => ⟨a, b, c, d⟩, fun ⟨a, b, c, d⟩ => ⟨a, b, c, d⟩⟩

structure Comment (line : String) : Prop where
  marked : line.toList.head? = some '#'
  noBreak : '\n' ∉ line.toList

private theorem equals_free {name : List Char} (free : '=' ∉ name) :
    ∀ c ∈ name, (c != '=') = true := by
  intro c member
  simp only [bne_iff_ne]
  rintro rfl
  exact free member

theorem readLine_line {directive : Directive} (named : Named directive.name) :
    readLine directive.line.toList = some directive := by
  obtain ⟨name, value⟩ := directive
  have other := equals_free named.noEquals
  obtain ⟨c, rest, shape⟩ := List.exists_cons_of_ne_nil named.nonempty
  have notComment : c ≠ '#' := by
    rintro rfl
    exact named.noComment (by simp [shape])
  cases value with
  | none =>
      have all : (name.toList ++ []).takeWhile (· != '=') = name.toList ++ [] :=
        List.takeWhile_append_of_pos other
      rw [List.append_nil] at all
      change readLine name.toList = _
      rw [readLine, if_neg (by simp [shape, notComment]), if_neg named.noEquals, all,
        String.ofList_toList]
  | some value =>
      have line : (Directive.line ⟨name, some value⟩).toList =
          name.toList ++ '=' :: value.toList := by simp [Directive.line]
      rw [line, readLine, if_neg (by simp [shape, notComment]), if_pos (by simp),
        List.takeWhile_append_of_pos other, List.dropWhile_append_of_pos other]
      simp

theorem readLine_comment {line : String} (comment : Comment line) :
    readLine line.toList = none := by
  rw [readLine, if_pos (.inr comment.marked)]

private theorem intercalate_break {lines : List String} (some : lines ≠ []) :
    "\n".intercalate (lines ++ ["\n"]) = "\n".intercalate (lines ++ ["", ""]) := by
  rw [String.intercalate_append_of_ne_nil some (by simp),
    String.intercalate_append_of_ne_nil some (by simp)]
  rfl

theorem read_lines {lines : List String} (some : lines ≠ [])
    (whole : ∀ line ∈ lines, '\n' ∉ line.toList) :
    read ("\n".intercalate (lines ++ ["\n"])) = lines.filterMap fun line => readLine line.toList := by
  have pieces : ("\n".intercalate (lines ++ ["", ""])).toList.splitOn '\n' =
      (lines ++ ["", ""]).map String.toList := by
    rw [String.toList_intercalate]
    apply List.splitOn_intercalate '\n'
    · intro line member
      obtain ⟨text, among, rfl⟩ := List.mem_map.mp member
      rcases List.mem_append.mp among with own | last
      · exact whole text own
      · have empty : text = "" := by simpa using last
        simp [empty]
    · simp
  rw [intercalate_break some, read, pieces, List.filterMap_map, List.filterMap_append]
  have ends : ["", ""].filterMap (readLine ∘ String.toList) = [] := by decide
  rw [ends, List.append_nil]
  rfl

private theorem line_whole {directive : Directive} (named : Named directive.name)
    (whole : ∀ value, directive.value = some value → '\n' ∉ value.toList) :
    '\n' ∉ directive.line.toList := by
  obtain ⟨name, value⟩ := directive
  cases value with
  | none => exact named.noBreak
  | some value => simpa [Directive.line, named.noBreak] using whole value rfl

theorem splitOn_free {c : Char} {text piece : List Char} (member : piece ∈ text.splitOn c) :
    c ∉ piece := by
  induction text generalizing piece with
  | nil =>
      rw [List.splitOn_nil, List.mem_singleton] at member
      simp [member]
  | cons d rest ih =>
      rw [List.splitOn_cons_eq_if_modifyHead] at member
      split at member
      · rcases List.mem_cons.mp member with rfl | later
        · simp
        · exact ih later
      · next differs =>
        cases pieces : rest.splitOn c with
        | nil => exact absurd pieces (List.splitOn_ne_nil c rest)
        | cons first others =>
            rw [pieces, List.modifyHead_cons] at member
            rcases List.mem_cons.mp member with rfl | later
            · have free := ih (pieces ▸ List.mem_cons_self)
              simp only [beq_iff_eq] at differs
              simp only [List.mem_cons, not_or]
              exact ⟨fun same => differs same.symm, free⟩
            · exact ih (pieces ▸ List.mem_cons_of_mem _ later)

private theorem value_mem_line {line : List Char} {directive : Directive} {value : String}
    (reads : readLine line = some directive) (has : directive.value = some value) :
    ∀ c ∈ value.toList, c ∈ line := by
  simp only [readLine] at reads
  split at reads
  · cases reads
  · cases reads
    simp only at has
    split at has
    · cases has
      intro c member
      rw [String.toList_ofList] at member
      exact (List.dropWhile_sublist _).subset (List.mem_of_mem_tail member)
    · cases has

theorem read_whole {text : String} {directive : Directive} (member : directive ∈ read text)
    {value : String} (has : directive.value = some value) : '\n' ∉ value.toList := by
  obtain ⟨line, among, reads⟩ := List.mem_filterMap.mp member
  exact fun broken => splitOn_free among (value_mem_line reads has _ broken)

/-- A file of directives is read back exactly if no value breaks its line. -/
theorem read_rendered_iff {comments : List String} {directives : List Directive}
    (some : directives ≠ []) (commented : ∀ line ∈ comments, Comment line)
    (named : ∀ directive ∈ directives, Named directive.name) :
    read (rendered comments directives) = directives ↔
      ∀ directive ∈ directives, ∀ value, directive.value = .some value → '\n' ∉ value.toList := by
  constructor
  · intro same directive member value has
    rw [← same] at member
    exact read_whole member has
  · intro whole
    rw [rendered, read_lines (by simp [some])]
    · rw [List.filterMap_append, List.filterMap_map]
      have skipped : comments.filterMap (fun line => readLine line.toList) = [] :=
        List.filterMap_eq_nil_iff.mpr fun line member => readLine_comment (commented line member)
      rw [skipped, List.nil_append]
      calc directives.filterMap ((fun line : String => readLine line.toList) ∘ Directive.line)
          = directives.filterMap .some :=
            List.filterMap_congr fun directive member => readLine_line (named directive member)
        _ = directives := List.filterMap_some
    · intro line member
      rcases List.mem_append.mp member with comment | own
      · exact (commented line comment).noBreak
      · obtain ⟨directive, among, rfl⟩ := List.mem_map.mp own
        exact line_whole (named directive among) (whole directive among)

/-! Values that are lists of arguments. -/

/-- Without arguments it is a name alone. -/
structure Setting where
  name : String
  arguments : List String
deriving DecidableEq

def Setting.directive (setting : Setting) : Directive :=
  ⟨setting.name, if setting.arguments = [] then none else some (",".intercalate setting.arguments)⟩

def Directive.setting (directive : Directive) : Setting :=
  ⟨directive.name,
    match directive.value with
    | none => []
    | some value => (value.toList.splitOn ',').map String.ofList⟩

def readSettings (text : String) : List Setting := (read text).map Directive.setting

private theorem mem_intercalate {c : Char} {separator : List Char} {pieces : List (List Char)}
    (member : c ∈ separator.intercalate pieces) :
    c ∈ separator ∨ ∃ piece ∈ pieces, c ∈ piece := by
  induction pieces with
  | nil => simp at member
  | cons first rest ih =>
      cases rest with
      | nil =>
          rw [List.intercalate_singleton] at member
          exact .inr ⟨first, List.mem_cons_self, member⟩
      | cons second others =>
          rw [List.intercalate_cons_cons, List.mem_append, List.mem_append] at member
          rcases member with (own | between) | later
          · exact .inr ⟨first, List.mem_cons_self, own⟩
          · exact .inl between
          · rcases ih later with between | ⟨piece, among, own⟩
            · exact .inl between
            · exact .inr ⟨piece, List.mem_cons_of_mem _ among, own⟩

private theorem mem_intercalate_of_piece {c : Char} {separator piece : List Char}
    {pieces : List (List Char)} (among : piece ∈ pieces) (member : c ∈ piece) :
    c ∈ separator.intercalate pieces := by
  induction pieces with
  | nil => simp at among
  | cons first rest ih =>
      cases rest with
      | nil =>
          rw [List.intercalate_singleton]
          rwa [← List.mem_singleton.mp among]
      | cons second others =>
          rw [List.intercalate_cons_cons, List.mem_append, List.mem_append]
          rcases List.mem_cons.mp among with rfl | later
          · exact .inl (.inl member)
          · exact .inr (ih later)

private theorem intercalate_free {c : Char} {separator : String} (other : c ∉ separator.toList)
    {texts : List String} (free : ∀ text ∈ texts, c ∉ text.toList) :
    c ∉ (separator.intercalate texts).toList := by
  rw [String.toList_intercalate]
  intro member
  rcases mem_intercalate member with between | ⟨piece, among, own⟩
  · exact other between
  · obtain ⟨text, known, rfl⟩ := List.mem_map.mp among
    exact free text known own

theorem setting_directive {setting : Setting}
    (whole : ∀ argument ∈ setting.arguments, ',' ∉ argument.toList) :
    setting.directive.setting = setting := by
  obtain ⟨name, arguments⟩ := setting
  cases arguments with
  | nil => rfl
  | cons first rest =>
      have pieces : (",".intercalate (first :: rest)).toList.splitOn ',' =
          (first :: rest).map String.toList := by
        rw [String.toList_intercalate]
        apply List.splitOn_intercalate ','
        · intro piece member
          obtain ⟨argument, among, rfl⟩ := List.mem_map.mp member
          exact whole argument among
        · simp
      simp only [Setting.directive, Directive.setting, reduceCtorEq, if_false, pieces,
        List.map_map, Setting.mk.injEq, true_and]
      exact List.map_id'' (fun argument => String.ofList_toList) _

theorem readSettings_rendered_iff {comments : List String} {settings : List Setting}
    (some : settings ≠ []) (commented : ∀ line ∈ comments, Comment line)
    (named : ∀ setting ∈ settings, Named setting.name) :
    readSettings (rendered comments (settings.map Setting.directive)) = settings ↔
      ∀ setting ∈ settings, ∀ argument ∈ setting.arguments,
        '\n' ∉ argument.toList ∧ ',' ∉ argument.toList := by
  have directives : settings.map Setting.directive ≠ [] := by simpa using some
  have known : ∀ directive ∈ settings.map Setting.directive, Named directive.name := by
    intro directive member
    obtain ⟨setting, among, rfl⟩ := List.mem_map.mp member
    exact named setting among
  constructor
  · intro same setting member argument among
    rw [← same] at member
    obtain ⟨directive, reads, rfl⟩ := List.mem_map.mp member
    obtain ⟨name, value⟩ := directive
    cases value with
    | none => simp [Directive.setting] at among
    | some value =>
        obtain ⟨piece, pieces, rfl⟩ := List.mem_map.mp among
        rw [String.toList_ofList]
        refine ⟨fun broken => read_whole reads rfl ?_, splitOn_free pieces⟩
        have joined : [','].intercalate (value.toList.splitOn ',') = value.toList :=
          List.intercalate_splitOn ','
        rw [← joined]
        exact mem_intercalate_of_piece pieces broken
  · intro whole
    have kept : read (rendered comments (settings.map Setting.directive)) =
        settings.map Setting.directive := by
      refine (read_rendered_iff directives commented known).mpr fun directive member value has => ?_
      obtain ⟨setting, among, rfl⟩ := List.mem_map.mp member
      simp only [Setting.directive] at has
      split at has
      · cases has
      · cases has
        exact intercalate_free (by decide) fun argument own => (whole setting among argument own).1
    rw [readSettings, kept, List.map_map]
    calc settings.map (Directive.setting ∘ Setting.directive)
        = settings.map id := List.map_congr_left fun setting member =>
          setting_directive fun argument own => (whole setting member argument own).2
      _ = settings := List.map_id settings

end PiAgents.Directives
