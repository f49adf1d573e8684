import AddonBundle.Path
import AddonBundle.Proofs.Text
/-!
# Keys of paths

A key is a sequence of steps out of the root followed by names, joined with slashes. Normalizing
always gives such a sequence and leaves one as it is, so that the entry of a path is found under
one key only and the key of a key is the key itself.
-/

namespace AddonBundle.Path

open Text

/-- The step to the outer directory. -/
def outer : Text := ['.', '.']

/-- The name of an entry in a directory: not empty, without slashes, and no step to the same or to
the outer directory. -/
def IsSegment (name : Text) : Prop :=
  name ≠ [] ∧ '/' ∉ name ∧ '\\' ∉ name ∧ name ≠ ['.'] ∧ name ≠ outer

instance (name : Text) : Decidable (IsSegment name) := by
  unfold IsSegment
  infer_instance

/-- The parts of a normalized path: steps out of the root, then names. -/
def IsNormal (parts : List Text) : Prop :=
  ∃ up names, parts = List.replicate up outer ++ names ∧ ∀ name ∈ names, IsSegment name

/-- A normalized path in the form that a tree uses. -/
def IsKey (key : Text) : Prop :=
  ∃ parts, IsNormal parts ∧ key = join ['/'] parts

theorem IsSegment.ne_nil {name : Text} (h : IsSegment name) : name ≠ [] := h.1

theorem IsSegment.slash_not_mem {name : Text} (h : IsSegment name) : '/' ∉ name := h.2.1

theorem IsSegment.backslash_not_mem {name : Text} (h : IsSegment name) : '\\' ∉ name := h.2.2.1

theorem isSegment_of_length {name : Text} (hlength : 3 ≤ name.length) (hslash : '/' ∉ name)
    (hback : '\\' ∉ name) : IsSegment name := by
  refine ⟨?_, hslash, hback, ?_, ?_⟩
  all_goals
    rintro rfl
    simp [outer] at hlength

theorem isSegment_append_json {name : Text} (hslash : '/' ∉ name) (hback : '\\' ∉ name) :
    IsSegment (name ++ ".json".toList) := by
  have hnot : ∀ c, c ∉ name → c ∉ ".json".toList → c ∉ name ++ ".json".toList := by
    intro c hname hjson hmem
    rcases List.mem_append.mp hmem with hmem | hmem
    · exact hname hmem
    · exact hjson hmem
  refine isSegment_of_length ?_ (hnot _ hslash (by decide)) (hnot _ hback (by decide))
  rw [List.length_append, show ".json".toList.length = 5 from rfl]
  omega

theorem IsSegment.append_json {name : Text} (h : IsSegment name) :
    IsSegment (name ++ ".json".toList) :=
  isSegment_append_json h.slash_not_mem h.backslash_not_mem

theorem isNormal_of_segments {names : List Text} (h : ∀ name ∈ names, IsSegment name) :
    IsNormal names :=
  ⟨0, names, by simp, h⟩

theorem IsNormal.append {parts names : List Text} (hparts : IsNormal parts)
    (h : ∀ name ∈ names, IsSegment name) : IsNormal (parts ++ names) := by
  obtain ⟨up, front, rfl, hfront⟩ := hparts
  refine ⟨up, front ++ names, by simp, ?_⟩
  intro name hname
  rcases List.mem_append.mp hname with hname | hname
  · exact hfront name hname
  · exact h name hname

theorem IsNormal.ne_nil {parts : List Text} (h : IsNormal parts) {part : Text}
    (hpart : part ∈ parts) : part ≠ [] := by
  obtain ⟨up, names, rfl, hnames⟩ := h
  rcases List.mem_append.mp hpart with hpart | hpart
  · rw [List.eq_of_mem_replicate hpart]
    simp [outer]
  · exact (hnames part hpart).ne_nil

theorem IsNormal.slash_not_mem {parts : List Text} (h : IsNormal parts) {part : Text}
    (hpart : part ∈ parts) : '/' ∉ part := by
  obtain ⟨up, names, rfl, hnames⟩ := h
  rcases List.mem_append.mp hpart with hpart | hpart
  · rw [List.eq_of_mem_replicate hpart]
    simp [outer]
  · exact (hnames part hpart).slash_not_mem

theorem IsNormal.backslash_not_mem {parts : List Text} (h : IsNormal parts) {part : Text}
    (hpart : part ∈ parts) : '\\' ∉ part := by
  obtain ⟨up, names, rfl, hnames⟩ := h
  rcases List.mem_append.mp hpart with hpart | hpart
  · rw [List.eq_of_mem_replicate hpart]
    simp [outer]
  · exact (hnames part hpart).backslash_not_mem

theorem IsNormal.of_append {front back : List Text} (h : IsNormal (front ++ back)) :
    IsNormal front := by
  obtain ⟨up, names, heq, hnames⟩ := h
  refine ⟨min front.length up, names.take (front.length - up), ?_, ?_⟩
  · have htake := congrArg (List.take front.length) heq
    rw [List.take_left, List.take_append, List.take_replicate, List.length_replicate] at htake
    exact htake
  · exact fun name hname => hnames name (List.mem_of_mem_take hname)

theorem IsNormal.isSegment {parts : List Text} (h : IsNormal parts) {part : Text}
    (hpart : part ∈ parts) (houter : part ≠ outer) : IsSegment part := by
  obtain ⟨up, names, rfl, hnames⟩ := h
  rcases List.mem_append.mp hpart with hpart | hpart
  · exact absurd (List.eq_of_mem_replicate hpart) houter
  · exact hnames part hpart

/-- Before a step out of the root there are only such steps. -/
theorem IsNormal.eq_replicate {parts : List Text} (h : IsNormal (parts ++ [outer])) :
    parts = List.replicate parts.length outer := by
  obtain ⟨up, names, heq, hnames⟩ := h
  rcases List.eq_nil_or_concat names with rfl | ⟨front, last, rfl⟩
  · rw [List.eq_replicate_iff]
    refine ⟨rfl, fun part hpart => ?_⟩
    have hmem : part ∈ List.replicate up outer ++ [] := by
      rw [← heq]
      simp [hpart]
    rw [List.append_nil] at hmem
    exact List.eq_of_mem_replicate hmem
  · rw [List.concat_eq_append, ← List.append_assoc] at heq
    have hlast : outer = last := by simpa using List.append_inj_right' heq rfl
    exact absurd hlast.symm (hnames last (by simp)).2.2.2.2

/-! ## Pushing parts

The parts before the current one are held last first, so a normalized stack is names on top of
steps out of the root. -/

/-- What the parts before the current one look like, last first; below a leading slash there are no
steps out of the root. -/
private def IsStack (rooted : Bool) (done : List Text) : Prop :=
  ∃ names up, done = names ++ List.replicate up outer ∧ (∀ name ∈ names, IsSegment name) ∧
    (rooted = true → up = 0)

theorem pushPart_outer (rooted : Bool) (done : List Text) :
    pushPart rooted done outer =
      match done with
      | [] => if rooted then [] else [outer]
      | last :: before => if last = outer then outer :: done else before := by
  cases done <;> rfl

theorem pushPart_segment {rooted : Bool} {done : List Text} {name : Text}
    (h : IsSegment name) : pushPart rooted done name = name :: done := by
  obtain ⟨hne, -, -, hdot, houter⟩ := h
  have houter' : name ≠ "..".toList := houter
  unfold pushPart
  rw [if_neg (by simp [hne, hdot]), if_pos houter']

private theorem isStack_pushPart {rooted : Bool} {done : List Text} {part : Text}
    (hdone : IsStack rooted done) (hslash : '/' ∉ part) (hback : '\\' ∉ part) :
    IsStack rooted (pushPart rooted done part) := by
  by_cases hskip : part = [] ∨ part = ['.']
  · have heq : pushPart rooted done part = done := by
      rcases hskip with rfl | rfl <;> simp [pushPart]
    rw [heq]
    exact hdone
  · rw [not_or] at hskip
    by_cases houter : part = outer
    · subst houter
      rw [pushPart_outer]
      obtain ⟨names, up, rfl, hnames, hup⟩ := hdone
      cases names with
      | nil =>
          cases up with
          | zero =>
              cases rooted with
              | true => exact ⟨[], 0, rfl, by simp, by simp⟩
              | false => exact ⟨[], 1, rfl, by simp, by simp⟩
          | succ up =>
              have hrooted : rooted ≠ true := fun h => absurd (hup h) (by simp)
              refine ⟨[], up + 2, ?_, by simp, fun h => absurd h hrooted⟩
              simp [List.replicate_succ]
      | cons name names =>
          have hname : name ≠ outer := (hnames name (by simp)).2.2.2.2
          refine ⟨names, up, ?_, fun n hn => hnames n (by simp [hn]), hup⟩
          simp [hname]
    · have hseg : IsSegment part := ⟨hskip.1, hslash, hback, hskip.2, houter⟩
      rw [pushPart_segment hseg]
      obtain ⟨names, up, rfl, hnames, hup⟩ := hdone
      refine ⟨part :: names, up, rfl, ?_, hup⟩
      intro name hname
      rcases List.mem_cons.mp hname with rfl | hname
      · exact hseg
      · exact hnames name hname

private theorem isStack_foldl {rooted : Bool} {parts done : List Text} (hdone : IsStack rooted done)
    (h : ∀ part ∈ parts, '/' ∉ part ∧ '\\' ∉ part) :
    IsStack rooted (parts.foldl (pushPart rooted) done) := by
  induction parts generalizing done with
  | nil => exact hdone
  | cons part parts ih =>
      have hpart := h part (by simp)
      exact ih (isStack_pushPart hdone hpart.1 hpart.2) (fun p hp => h p (by simp [hp]))

private theorem isStack_parts {path : Text} (h : '\\' ∉ path) :
    IsStack (leadingSlashes path ≠ 0) (parts path).reverse := by
  have hempty : IsStack (leadingSlashes path ≠ 0) [] := ⟨[], 0, rfl, by simp, by simp⟩
  rw [parts, List.reverse_reverse]
  refine isStack_foldl hempty fun part hpart => ?_
  exact ⟨not_mem_of_mem_split hpart, fun hmem => h (mem_of_mem_split hpart hmem)⟩

/-- The parts of a path without backslashes are normalized. -/
theorem isNormal_parts {path : Text} (h : '\\' ∉ path) : IsNormal (parts path) := by
  obtain ⟨names, up, hstack, hnames, -⟩ := isStack_parts h
  refine ⟨up, names.reverse, ?_, by simpa using hnames⟩
  rw [← List.reverse_reverse (parts path), hstack]
  simp

theorem foldl_pushPart_segments {rooted : Bool} {names done : List Text}
    (h : ∀ name ∈ names, IsSegment name) :
    names.foldl (pushPart rooted) done = names.reverse ++ done := by
  induction names generalizing done with
  | nil => rfl
  | cons name names ih =>
      rw [List.foldl_cons, pushPart_segment (h name (by simp)), ih (fun n hn => h n (by simp [hn]))]
      simp

private theorem foldl_pushPart_outer (up m : Nat) :
    (List.replicate up outer).foldl (pushPart false) (List.replicate m outer) =
      List.replicate (up + m) outer := by
  induction up generalizing m with
  | zero => simp
  | succ up ih =>
      have hpush : pushPart false (List.replicate m outer) outer =
          List.replicate (m + 1) outer := by
        rw [pushPart_outer]
        cases m <;> simp [List.replicate_succ]
      rw [List.replicate_succ, List.foldl_cons, hpush, ih]
      congr 1
      omega

/-- Names are taken back by as many steps to the outer directory. -/
theorem foldl_pushPart_back (rooted : Bool) {names : List Text} (done : List Text)
    (h : ∀ name ∈ names, IsSegment name) :
    (List.replicate names.length outer).foldl (pushPart rooted) (names ++ done) = done := by
  induction names with
  | nil => rfl
  | cons name names ih =>
      have hname : name ≠ outer := (h name (by simp)).2.2.2.2
      rw [List.length_cons, List.replicate_succ, List.foldl_cons, List.cons_append,
        pushPart_outer]
      simp only [hname, if_false]
      exact ih (fun n hn => h n (by simp [hn]))

/-! ## Normalized paths -/

private theorem join_head_ne_slash {parts : List Text}
    (h : ∀ part ∈ parts, part ≠ [] ∧ '/' ∉ part) : (join ['/'] parts).head? ≠ some '/' := by
  cases parts with
  | nil => simp
  | cons part parts =>
      obtain ⟨hne, hslash⟩ := h part (by simp)
      cases part with
      | nil => exact absurd rfl hne
      | cons c part =>
          have hc : c ≠ '/' := fun hc => hslash (by simp [hc])
          cases parts with
          | nil => simpa using hc
          | cons next parts => simpa [join_cons_cons] using hc

theorem leadingSlashes_eq_zero {path : Text} (h : path.head? ≠ some '/') :
    leadingSlashes path = 0 := by
  unfold leadingSlashes
  split <;> simp_all

theorem leadingSlashes_eq_zero_iff {path : Text} :
    leadingSlashes path = 0 ↔ path.head? ≠ some '/' := by
  refine ⟨fun hzero hhead => ?_, leadingSlashes_eq_zero⟩
  obtain ⟨rest, rfl⟩ := List.head?_eq_some_iff.mp hhead
  unfold leadingSlashes at hzero
  split at hzero <;> simp_all

/-- The parts behind a slash are pushed on those before it. -/
theorem parts_append {base : Text} (rest : Text) (hbase : base ≠ []) :
    parts (base ++ '/' :: rest) =
      ((split '/' rest).foldl (pushPart (leadingSlashes base ≠ 0))
        (parts base).reverse).reverse := by
  have hzero : leadingSlashes (base ++ '/' :: rest) = 0 ↔ leadingSlashes base = 0 := by
    rw [leadingSlashes_eq_zero_iff, leadingSlashes_eq_zero_iff,
      List.head?_append_of_ne_nil _ hbase]
  rw [parts, parts, List.reverse_reverse, split_append, List.foldl_append]
  simp only [ne_eq, hzero]

theorem leadingSlashes_join {parts : List Text} (h : IsNormal parts) :
    leadingSlashes (join ['/'] parts) = 0 :=
  leadingSlashes_eq_zero
    (join_head_ne_slash fun _ hpart => ⟨h.ne_nil hpart, h.slash_not_mem hpart⟩)

/-- Normalized parts are pushed one on the other. -/
theorem IsNormal.foldl_pushPart {segments : List Text} (h : IsNormal segments) :
    segments.foldl (pushPart false) [] = segments.reverse := by
  obtain ⟨up, names, rfl, hnames⟩ := h
  have houter := foldl_pushPart_outer up 0
  simp only [List.replicate_zero, Nat.add_zero] at houter
  rw [List.foldl_append, houter, foldl_pushPart_segments hnames]
  simp

/-- Normalized parts stay as they are. -/
theorem parts_join {segments : List Text} (h : IsNormal segments) :
    parts (join ['/'] segments) = segments := by
  have hzero := leadingSlashes_join h
  by_cases hne : segments = []
  · subst hne
    rfl
  · have hsplit := split_join hne (fun _ hpart => h.slash_not_mem hpart)
    rw [parts, hsplit, hzero]
    simp only [ne_eq, not_true_eq_false, decide_false]
    rw [h.foldl_pushPart, List.reverse_reverse]

private theorem join_ne_nil {segments : List Text} (hne : segments ≠ [])
    (h : ∀ part ∈ segments, part ≠ []) : join ['/'] segments ≠ [] := by
  cases segments with
  | nil => exact absurd rfl hne
  | cons part rest =>
      have hpart := h part (by simp)
      cases rest with
      | nil => simpa using hpart
      | cons next rest => simp [join_cons_cons]

/-- Backslashes divide parts too. -/
def unifySlashes (path : Text) : Text :=
  path.map fun c => if c = '\\' then '/' else c

theorem backslash_not_mem_unifySlashes (path : Text) : '\\' ∉ unifySlashes path := by
  intro h
  obtain ⟨c, -, hc⟩ := List.mem_map.mp h
  by_cases hcase : c = '\\' <;> simp [hcase] at hc

theorem unifySlashes_eq_self {path : Text} (h : '\\' ∉ path) : unifySlashes path = path := by
  unfold unifySlashes
  rw [List.map_congr_left (g := id), List.map_id]
  intro c hc
  have hne : c ≠ '\\' := fun heq => h (heq ▸ hc)
  simp [hne]

private theorem dropWhile_slashes_append (n : Nat) {body : Text} (h : body.head? ≠ some '/') :
    (List.replicate n '/' ++ body).dropWhile (· = '/') = body := by
  induction n with
  | zero =>
      cases body with
      | nil => rfl
      | cons c body =>
          have hc : c ≠ '/' := by simpa using h
          simp [hc]
  | succ n ih => simpa [List.replicate_succ] using ih

private theorem join_ne_dot {parts : List Text} (h : IsNormal parts) :
    join ['/'] parts ≠ ['.'] := by
  intro hdot
  have hparts := parts_join h
  rw [hdot] at hparts
  have hnil : parts = [] := hparts.symm.trans rfl
  simp [hnil] at hdot

/-- The key of a path is made of its parts. -/
theorem key_eq_join (path : Text) : key path = join ['/'] (parts (unifySlashes path)) := by
  by_cases hpath : path = []
  · subst hpath
    rfl
  · have hnormal := isNormal_parts (backslash_not_mem_unifySlashes path)
    have hhead : (join ['/'] (parts (unifySlashes path))).head? ≠ some '/' :=
      join_head_ne_slash fun _ hpart => ⟨hnormal.ne_nil hpart, hnormal.slash_not_mem hpart⟩
    have hkey : key path =
        if normalize (unifySlashes path) = ['.'] then []
        else (normalize (unifySlashes path)).dropWhile (· = '/') := by
      rw [key, if_neg (by simpa using hpath)]
      rfl
    rw [hkey]
    by_cases hbody : List.replicate (leadingSlashes (unifySlashes path)) '/' ++
        join ['/'] (parts (unifySlashes path)) = []
    · have hjoin := (List.append_eq_nil_iff.mp hbody).2
      have hdot : normalize (unifySlashes path) = ['.'] := by
        simp only [normalize]
        rw [if_pos (by simpa using hbody)]
      rw [if_pos hdot, hjoin]
    · have hnorm : normalize (unifySlashes path) =
          List.replicate (leadingSlashes (unifySlashes path)) '/' ++
            join ['/'] (parts (unifySlashes path)) := by
        simp only [normalize]
        rw [if_neg (by simpa using hbody)]
      have hdot : normalize (unifySlashes path) ≠ ['.'] := by
        rw [hnorm]
        intro hdot
        cases hn : leadingSlashes (unifySlashes path) with
        | zero =>
            rw [hn] at hdot
            exact join_ne_dot hnormal (by simpa using hdot)
        | succ n => simp [hn, List.replicate_succ] at hdot
      rw [if_neg hdot, hnorm, dropWhile_slashes_append _ hhead]

theorem isKey_key (path : Text) : IsKey (key path) :=
  ⟨_, isNormal_parts (backslash_not_mem_unifySlashes path), key_eq_join path⟩

theorem backslash_not_mem_join {parts : List Text} (h : ∀ part ∈ parts, '\\' ∉ part) :
    '\\' ∉ join ['/'] parts := by
  induction parts with
  | nil => simp
  | cons part parts ih =>
      have hpart := h part (by simp)
      cases parts with
      | nil => simpa using hpart
      | cons next parts =>
          have hrest := ih (fun p hp => h p (by simp [hp]))
          simp [join_cons_cons, hpart, hrest]

theorem key_join {parts : List Text} (h : IsNormal parts) :
    key (join ['/'] parts) = join ['/'] parts := by
  rw [key_eq_join, unifySlashes_eq_self (backslash_not_mem_join fun _ hp => h.backslash_not_mem hp),
    parts_join h]

/-- The key of a key is the key. -/
theorem IsKey.key_eq {k : Text} (h : IsKey k) : key k = k := by
  obtain ⟨parts, hparts, rfl⟩ := h
  exact key_join hparts

theorem isKey_iff {k : Text} : IsKey k ↔ key k = k :=
  ⟨IsKey.key_eq, fun h => h ▸ isKey_key k⟩

/-! ## Paths below others -/

theorem join_ne_nil_of_isNormal {parts : List Text} (hne : parts ≠ []) (h : IsNormal parts) :
    join ['/'] parts ≠ [] :=
  join_ne_nil hne (fun _ hpart => h.ne_nil hpart)

/-- Names below a key give a key. -/
theorem IsKey.append {k : Text} {names : List Text} (hk : IsKey k) (hne : k ≠ [])
    (hnames : names ≠ []) (h : ∀ name ∈ names, IsSegment name) :
    IsKey (k ++ '/' :: join ['/'] names) := by
  obtain ⟨parts, hparts, rfl⟩ := hk
  have hpartsne : parts ≠ [] := by
    rintro rfl
    exact hne rfl
  refine ⟨parts ++ names, hparts.append h, ?_⟩
  rw [join_append hpartsne hnames]
  simp

theorem IsKey.child {k name : Text} (hk : IsKey k) (hne : k ≠ []) (h : IsSegment name) :
    IsKey (k ++ '/' :: name) := by
  have hname : ∀ n ∈ [name], IsSegment n := by simpa using h
  simpa using hk.append hne (by simp) hname

theorem IsSegment.isKey {name : Text} (h : IsSegment name) : IsKey name :=
  ⟨[name], isNormal_of_segments (by simpa using h), rfl⟩

/-- The parts of a key are what stands between its slashes. -/
theorem IsKey.isNormal_split {k : Text} (h : IsKey k) (hne : k ≠ []) : IsNormal (split '/' k) := by
  obtain ⟨parts, hparts, rfl⟩ := h
  have hpartsne : parts ≠ [] := by
    rintro rfl
    exact hne rfl
  rw [split_join hpartsne (fun _ hpart => hparts.slash_not_mem hpart)]
  exact hparts

/-- Once a part is a name, so are all behind it. -/
theorem IsNormal.segments_of_head {part : Text} {rest : List Text} (h : IsNormal (part :: rest))
    (hpart : part ≠ outer) : ∀ name ∈ part :: rest, IsSegment name := by
  obtain ⟨up, names, heq, hnames⟩ := h
  cases up with
  | zero =>
      rw [List.replicate_zero, List.nil_append] at heq
      rw [heq]
      exact hnames
  | succ up =>
      rw [List.replicate_succ, List.cons_append, List.cons.injEq] at heq
      exact absurd heq.1 hpart

/-- Below a name, keys go on with names. -/
theorem IsKey.segments_below {name rest : Text} (hname : IsSegment name)
    (h : IsKey (name ++ '/' :: rest)) : ∀ part ∈ split '/' rest, IsSegment part := by
  have hnormal := h.isNormal_split (by simp)
  rw [split_append_cons _ hname.slash_not_mem] at hnormal
  intro part hpart
  exact hnormal.segments_of_head hname.2.2.2.2 part (by simp [hpart])

@[simp] theorem key_key (path : Text) : key (key path) = key path :=
  (isKey_key path).key_eq

/-! ## Directories of entries, and ways between them -/

private theorem throughLastSlash_append {name : Text} (base : Text) (h : '/' ∉ name) :
    throughLastSlash (base ++ '/' :: name) = base ++ ['/'] := by
  have hreverse : (base ++ '/' :: name).reverse = name.reverse ++ '/' :: base.reverse := by simp
  rw [throughLastSlash, hreverse, List.dropWhile_append_of_pos]
  · simp
  · intro c hc
    have hne : c ≠ '/' := fun heq => h (heq ▸ List.mem_reverse.mp hc)
    simpa using hne

/-- The directory that holds an entry below a path. -/
theorem parent_append {base name : Text} (hname : '/' ∉ name) (hlast : base.getLast? ≠ some '/')
    (hne : base ≠ []) : parent (base ++ '/' :: name) = base := by
  obtain ⟨front, last, rfl⟩ := List.eq_nil_or_concat base |>.resolve_left hne
  have hc : last ≠ '/' := by simpa using hlast
  rw [parent, throughLastSlash_append _ hname]
  simp [hc]

private theorem getLast?_join {parts : List Text} (hne : parts ≠ []) (h : IsNormal parts) :
    (join ['/'] parts).getLast? ≠ some '/' := by
  obtain ⟨front, last, rfl⟩ := List.eq_nil_or_concat parts |>.resolve_left hne
  have hlast : last ≠ [] := h.ne_nil (by simp)
  have hslash : '/' ∉ last := h.slash_not_mem (by simp)
  obtain ⟨start, c, rfl⟩ := List.eq_nil_or_concat last |>.resolve_left hlast
  have hc : c ≠ '/' := by
    rintro rfl
    simp at hslash
  by_cases hfront : front = []
  · subst hfront
    simpa using hc
  · rw [List.concat_eq_append, List.concat_eq_append, join_append hfront (by simp), join_singleton]
    simpa [← List.append_assoc] using hc

theorem IsKey.getLast?_ne_slash {k : Text} (h : IsKey k) : k.getLast? ≠ some '/' := by
  obtain ⟨parts, hparts, rfl⟩ := h
  by_cases hne : parts = []
  · subst hne
    simp
  · exact getLast?_join hne hparts

/-- The directory of an entry below a key. -/
theorem IsKey.parent_child {k name : Text} (hk : IsKey k) (hne : k ≠ []) (h : '/' ∉ name) :
    parent (k ++ '/' :: name) = k :=
  parent_append h hk.getLast?_ne_slash hne

/-- The way from a directory to an entry of the root that does not lead to the directory. -/
theorem relative_root {name first : Text} {rest : List Text} (hname : IsSegment name)
    (h : ∀ part ∈ first :: rest, IsSegment part) (hne : first ≠ name) :
    relative name (join ['/'] (first :: rest)) =
      join ['/'] (List.replicate (rest.length + 1) outer ++ [name]) := by
  have hsingle : ∀ n ∈ [name], IsSegment n := by simpa using hname
  have hname' : parts name = [name] := parts_join (isNormal_of_segments hsingle)
  have hbase := parts_join (isNormal_of_segments h)
  simp only [relative, hname', hbase, sharedParts, hne, if_false]
  rw [if_neg (by simp)]
  rfl

private theorem parts_back {names targets : List Text} (hne : targets ≠ [])
    (hnames : ∀ name ∈ names, IsSegment name) (htargets : ∀ name ∈ targets, IsSegment name) :
    parts (join ['/'] (names ++ List.replicate names.length outer ++ targets)) = targets := by
  have hslash : ∀ part ∈ names ++ List.replicate names.length outer ++ targets, '/' ∉ part := by
    intro part hpart
    rw [List.mem_append, List.mem_append] at hpart
    rcases hpart with (hpart | hpart) | hpart
    · exact (hnames part hpart).slash_not_mem
    · rw [List.eq_of_mem_replicate hpart]
      simp [outer]
    · exact (htargets part hpart).slash_not_mem
  have hreverse : ∀ name ∈ names.reverse, IsSegment name := by simpa using hnames
  have hback := fun rooted => foldl_pushPart_back rooted [] hreverse
  simp only [List.length_reverse] at hback
  rw [parts, split_join (by simp [hne]) hslash, List.foldl_append, List.foldl_append,
    foldl_pushPart_segments hnames, hback, foldl_pushPart_segments htargets]
  simp

/-- Going from a directory out to the root and from there to names leads to the names. -/
theorem normalize_back {names targets : List Text} (hne : targets ≠ [])
    (hnames : ∀ name ∈ names, IsSegment name) (htargets : ∀ name ∈ targets, IsSegment name) :
    normalize (join ['/'] (names ++ List.replicate names.length outer ++ targets)) =
      join ['/'] targets := by
  have hhead : (join ['/'] (names ++ List.replicate names.length outer ++ targets)).head? ≠
      some '/' := by
    apply join_head_ne_slash
    intro part hpart
    rw [List.mem_append, List.mem_append] at hpart
    rcases hpart with (hpart | hpart) | hpart
    · exact ⟨(hnames part hpart).ne_nil, (hnames part hpart).slash_not_mem⟩
    · rw [List.eq_of_mem_replicate hpart]
      simp [outer]
    · exact ⟨(htargets part hpart).ne_nil, (htargets part hpart).slash_not_mem⟩
  have hbody := join_ne_nil hne (fun part hpart => (htargets part hpart).ne_nil)
  simp only [normalize]
  rw [leadingSlashes_eq_zero hhead, parts_back hne hnames htargets, List.replicate_zero,
    List.nil_append, if_neg (by simpa using hbody)]

/-! ## Following the way to a path -/

theorem take_sharedParts (base target : List Text) :
    base.take (sharedParts base target) = target.take (sharedParts base target) := by
  induction base generalizing target with
  | nil => cases target <;> rfl
  | cons part base ih =>
      cases target with
      | nil => rfl
      | cons other target =>
          by_cases heq : part = other
          · simp [sharedParts, heq, ih]
          · simp [sharedParts, heq]

/-- The steps of the way from a directory to a path, both given by their parts. -/
def stepsTo (base target : List Text) : List Text :=
  List.replicate (base.length - sharedParts base target) outer ++
    target.drop (sharedParts base target)

private theorem relative_eq (path start : Text) :
    relative path start =
      if (stepsTo (parts start) (parts path)).isEmpty then ['.']
      else join ['/'] (stepsTo (parts start) (parts path)) := rfl

private theorem foldl_pushPart_stepsTo (rooted : Bool) {base target : List Text}
    (hbase : ∀ name ∈ base, IsSegment name) (htarget : ∀ name ∈ target, IsSegment name) :
    (stepsTo base target).foldl (pushPart rooted) base.reverse = target.reverse := by
  have hdrop : ∀ name ∈ (base.drop (sharedParts base target)).reverse, IsSegment name :=
    fun name hname => hbase name (List.mem_of_mem_drop (List.mem_reverse.mp hname))
  have hsplit : base.reverse = (base.drop (sharedParts base target)).reverse ++
      (base.take (sharedParts base target)).reverse := by
    rw [← List.reverse_append, List.take_append_drop]
  have hback := foldl_pushPart_back rooted (base.take (sharedParts base target)).reverse hdrop
  rw [List.length_reverse, List.length_drop, ← hsplit] at hback
  rw [stepsTo, List.foldl_append, hback, take_sharedParts,
    foldl_pushPart_segments fun name hname => htarget name (List.mem_of_mem_drop hname),
    ← List.reverse_append, List.take_append_drop]

private theorem mem_stepsTo {base target : List Text} (h : ∀ name ∈ target, IsSegment name)
    {part : Text} (hpart : part ∈ stepsTo base target) : part ≠ [] ∧ '/' ∉ part := by
  rcases List.mem_append.mp hpart with hpart | hpart
  · rw [List.eq_of_mem_replicate hpart]
    decide
  · have hsegment := h part (List.mem_of_mem_drop hpart)
    exact ⟨hsegment.ne_nil, hsegment.slash_not_mem⟩

private theorem foldl_split_relative (rooted : Bool) {path start : Text} (done : List Text)
    (h : ∀ name ∈ parts path, IsSegment name) :
    (split '/' (relative path start)).foldl (pushPart rooted) done =
      (stepsTo (parts start) (parts path)).foldl (pushPart rooted) done := by
  rw [relative_eq]
  by_cases hempty : stepsTo (parts start) (parts path) = []
  · simp [hempty, split, pushPart]
  · rw [if_neg (by simpa using hempty),
      split_join hempty fun part hpart => (mem_stepsTo h hpart).2]

private theorem head?_relative {path : Text} (start : Text)
    (h : ∀ name ∈ parts path, IsSegment name) :
    relative path start ≠ [] ∧ (relative path start).head? ≠ some '/' := by
  rw [relative_eq]
  by_cases hempty : stepsTo (parts start) (parts path) = []
  · simp [hempty]
  · rw [if_neg (by simpa using hempty)]
    exact ⟨join_ne_nil hempty fun part hpart => (mem_stepsTo h hpart).1,
      join_head_ne_slash fun part hpart => mem_stepsTo h hpart⟩

/-- The parts of a path below a directory are pushed on the names of the directory. -/
private theorem parts_append_join {names : List Text} {path : Text}
    (hnames : ∀ name ∈ names, IsSegment name) (hhead : path.head? ≠ some '/') :
    leadingSlashes (append (join ['/'] names) path) = 0 ∧
      parts (append (join ['/'] names) path) =
        ((split '/' path).foldl (pushPart false) names.reverse).reverse := by
  by_cases hempty : names = []
  · subst hempty
    have hzero := leadingSlashes_eq_zero hhead
    rw [append, if_neg hhead, if_pos (by simp), join_nil, List.nil_append]
    refine ⟨hzero, ?_⟩
    rw [parts, hzero]
    simp
  · have hnormal := isNormal_of_segments hnames
    have hne := join_ne_nil hempty fun name hname => (hnames name hname).ne_nil
    have hzero : leadingSlashes (join ['/'] names ++ '/' :: path) = 0 := by
      apply leadingSlashes_eq_zero
      rw [List.head?_append_of_ne_nil _ hne]
      exact join_head_ne_slash fun name hname =>
        ⟨(hnames name hname).ne_nil, (hnames name hname).slash_not_mem⟩
    rw [append, if_neg hhead, if_neg (by simp [hne, getLast?_join hempty hnormal])]
    refine ⟨hzero, ?_⟩
    rw [parts, hzero, split_append, split_join hempty fun name hname =>
      (hnames name hname).slash_not_mem, List.foldl_append]
    simp [foldl_pushPart_segments hnames]

/-- The way from a directory to another one, followed from the first, leads to the second. -/
theorem normalize_relative {names targets : List Text} {name : Text}
    (hnames : ∀ part ∈ names, IsSegment part) (htargets : ∀ part ∈ targets, IsSegment part)
    (hname : IsSegment name) :
    normalize (append (join ['/'] names)
      (relative (join ['/'] targets) (join ['/'] names) ++ '/' :: name)) =
      join ['/'] (targets ++ [name]) := by
  have htargetParts := parts_join (isNormal_of_segments htargets)
  have htargets' : ∀ part ∈ parts (join ['/'] targets), IsSegment part := by
    rw [htargetParts]
    exact htargets
  obtain ⟨hne, hhead⟩ := head?_relative (join ['/'] names) htargets'
  have hway : (relative (join ['/'] targets) (join ['/'] names) ++ '/' :: name).head? ≠
      some '/' := by
    rwa [List.head?_append_of_ne_nil _ hne]
  have hsteps : (split '/' (relative (join ['/'] targets) (join ['/'] names))).foldl
      (pushPart false) names.reverse = targets.reverse := by
    rw [foldl_split_relative false _ htargets', parts_join (isNormal_of_segments hnames),
      htargetParts]
    exact foldl_pushPart_stepsTo false hnames htargets
  obtain ⟨hzero, hparts⟩ := parts_append_join hnames hway
  rw [split_append, split_of_not_mem hname.slash_not_mem, List.foldl_append, hsteps,
    List.foldl_cons, List.foldl_nil, pushPart_segment hname, List.reverse_cons,
    List.reverse_reverse] at hparts
  have hbody : join ['/'] (targets ++ [name]) ≠ [] := by
    apply join_ne_nil (by simp)
    intro part hpart
    rcases List.mem_append.mp hpart with hpart | hpart
    · exact (htargets part hpart).ne_nil
    · rw [List.mem_singleton.mp hpart]
      exact hname.ne_nil
  simp only [normalize, hzero, hparts, List.replicate_zero, List.nil_append]
  rw [if_neg (by simpa using hbody)]

/-! ## Normal forms -/

theorem leadingSlashes_replicate {n : Nat} {body : Text} (hn : n ≤ 2)
    (hbody : body.head? ≠ some '/') : leadingSlashes (List.replicate n '/' ++ body) = n := by
  cases body with
  | nil =>
      match n with
      | 0 | 1 | 2 => rfl
  | cons c body =>
      have hc : c ≠ '/' := by simpa using hbody
      match n with
      | 0 | 1 | 2 => simp [leadingSlashes, List.replicate, hc]

theorem leadingSlashes_le (path : Text) : leadingSlashes path ≤ 2 := by
  unfold leadingSlashes
  split <;> omega

/-- Only the slashes at its start matter. -/
theorem leadingSlashes_append {n : Nat} {body body' : Text} (h : body.head? ≠ some '/')
    (h' : body'.head? ≠ some '/') :
    leadingSlashes (List.replicate n '/' ++ body) =
      leadingSlashes (List.replicate n '/' ++ body') := by
  by_cases hn : n ≤ 2
  · rw [leadingSlashes_replicate hn h, leadingSlashes_replicate hn h']
  · obtain ⟨n, rfl⟩ : ∃ more, n = more + 3 := ⟨n - 3, by omega⟩
    rfl

/-- Below a leading slash there are no steps out of the root. -/
theorem isSegment_of_mem_parts {path name : Text} (h : '\\' ∉ path)
    (hroot : leadingSlashes path ≠ 0) (hname : name ∈ parts path) : IsSegment name := by
  obtain ⟨names, up, hstack, hnames, hup⟩ := isStack_parts h
  have hzero : up = 0 := hup (by simpa using hroot)
  rw [← List.mem_reverse, hstack, hzero, List.replicate_zero, List.append_nil] at hname
  exact hnames name hname

private theorem head?_join_parts {path : Text} (h : '\\' ∉ path) :
    (join ['/'] (parts path)).head? ≠ some '/' :=
  join_head_ne_slash fun _ hpart =>
    ⟨(isNormal_parts h).ne_nil hpart, (isNormal_parts h).slash_not_mem hpart⟩

theorem leadingSlashes_normalize {path : Text} (h : '\\' ∉ path) :
    leadingSlashes (normalize path) = leadingSlashes path := by
  have hbody := leadingSlashes_replicate (leadingSlashes_le path) (head?_join_parts h)
  unfold normalize
  dsimp only
  split
  · rename_i hempty
    rw [← hbody, List.isEmpty_iff.mp hempty]
    rfl
  · exact hbody

theorem backslash_not_mem_normalize {path : Text} (h : '\\' ∉ path) : '\\' ∉ normalize path := by
  unfold normalize
  dsimp only
  split
  · decide
  · rw [List.mem_append, not_or]
    exact ⟨fun hmem => absurd (List.eq_of_mem_replicate hmem) (by decide),
      backslash_not_mem_join fun _ hpart => (isNormal_parts h).backslash_not_mem hpart⟩

private theorem foldl_split_slashes (rooted : Bool) (n : Nat) (body : Text) (done : List Text) :
    (split '/' (List.replicate n '/' ++ body)).foldl (pushPart rooted) done =
      (split '/' body).foldl (pushPart rooted) done := by
  induction n with
  | zero => rfl
  | succ n ih =>
      rw [List.replicate_succ, List.cons_append, split, if_pos rfl, List.foldl_cons]
      exact ih

/-- The parts of a path are those of its normal form. -/
theorem parts_normalize {path : Text} (h : '\\' ∉ path) : parts (normalize path) = parts path := by
  have hnormal := isNormal_parts h
  by_cases hroot : leadingSlashes path = 0
  · by_cases hnil : parts path = []
    · simp only [normalize, hroot, hnil]
      rfl
    · have hne := join_ne_nil hnil fun _ hpart => hnormal.ne_nil hpart
      simp only [normalize, hroot, List.replicate_zero, List.nil_append]
      rw [if_neg (by simpa using hne), parts_join hnormal]
  · have hsegments : ∀ name ∈ parts path, IsSegment name := fun _ => isSegment_of_mem_parts h hroot
    have hbody := leadingSlashes_replicate (leadingSlashes_le path) (head?_join_parts h)
    have hne : (List.replicate (leadingSlashes path) '/' ++ join ['/'] (parts path)).isEmpty ≠
        true := by
      simp [hroot]
    simp only [normalize]
    rw [if_neg hne, parts.eq_1 (_ ++ _), hbody, foldl_split_slashes]
    by_cases hnil : parts path = []
    · rw [hnil]
      rfl
    · rw [split_join hnil fun _ hpart => hnormal.slash_not_mem hpart,
        foldl_pushPart_segments hsegments]
      simp

/-- The normal form of a path without backslashes leads to the same entry. -/
theorem key_normalize {path : Text} (h : '\\' ∉ path) : key (normalize path) = key path := by
  rw [key_eq_join, key_eq_join, unifySlashes_eq_self h,
    unifySlashes_eq_self (backslash_not_mem_normalize h), parts_normalize h]

/-- Paths without backslashes that start alike and lead to one entry have one normal form. -/
theorem normalize_eq_of_key {path other : Text} (h : '\\' ∉ path) (hother : '\\' ∉ other)
    (hleading : leadingSlashes path = leadingSlashes other) (hkey : key path = key other) :
    normalize path = normalize other := by
  rw [key_eq_join, key_eq_join, unifySlashes_eq_self h, unifySlashes_eq_self hother] at hkey
  simp only [normalize, hleading, hkey]

/-! ## Plain paths -/

/-- A path on which the normal form and the key agree: it has no backslash and does not start at
the root. -/
def IsPlain (path : Text) : Prop :=
  '\\' ∉ path ∧ path.head? ≠ some '/'

instance (path : Text) : Decidable (IsPlain path) := by
  unfold IsPlain
  infer_instance

theorem IsPlain.key_eq {path : Text} (h : IsPlain path) : key path = join ['/'] (parts path) := by
  rw [key_eq_join, unifySlashes_eq_self h.1]

theorem IsPlain.normalize_eq {path : Text} (h : IsPlain path) :
    normalize path = if key path = [] then ['.'] else key path := by
  rw [h.key_eq]
  simp [normalize, leadingSlashes_eq_zero h.2]

theorem IsPlain.key_normalize {path : Text} (h : IsPlain path) :
    key (normalize path) = key path :=
  Path.key_normalize h.1

theorem IsPlain.normalize {path : Text} (h : IsPlain path) : IsPlain (normalize path) := by
  refine ⟨backslash_not_mem_normalize h.1, ?_⟩
  rw [h.normalize_eq]
  split
  · decide
  · rw [h.key_eq]
    exact head?_join_parts h.1

theorem throughLastSlash_isPrefix (path : Text) : throughLastSlash path <+: path := by
  rw [← List.reverse_suffix, throughLastSlash, List.reverse_reverse]
  exact List.dropWhile_suffix _

theorem parent_isPrefix (path : Text) : parent path <+: path := by
  simp only [parent]
  split
  · exact throughLastSlash_isPrefix path
  · refine List.IsPrefix.trans ?_ (throughLastSlash_isPrefix path)
    rw [← List.reverse_suffix, List.reverse_reverse]
    exact List.dropWhile_suffix _

theorem IsPlain.of_isPrefix {front path : Text} (h : IsPlain path) (hfront : front <+: path) :
    IsPlain front := by
  obtain ⟨back, rfl⟩ := hfront
  refine ⟨fun hmem => h.1 (List.mem_append_left _ hmem), fun hhead => h.2 ?_⟩
  rw [List.head?_append, hhead]
  rfl

theorem isPrefix_append {base path : Text} (h : path.head? ≠ some '/') :
    base <+: append base path := by
  unfold append
  rw [if_neg h]
  split
  · exact List.prefix_append _ _
  · exact List.prefix_append _ _

theorem backslash_not_mem_append {base path : Text} (hbase : '\\' ∉ base) (hpath : '\\' ∉ path) :
    '\\' ∉ append base path := by
  unfold append
  split
  · exact hpath
  · split
    · simp [hbase, hpath]
    · simp [hbase, hpath]

theorem IsPlain.append {base path : Text} (hbase : IsPlain base) (hpath : IsPlain path) :
    IsPlain (append base path) := by
  refine ⟨backslash_not_mem_append hbase.1 hpath.1, ?_⟩
  cases base with
  | nil =>
      rw [Path.append, if_neg hpath.2]
      exact hpath.2
  | cons c base =>
      obtain ⟨more, hmore⟩ := @isPrefix_append (c :: base) path hpath.2
      rw [← hmore]
      exact hbase.2

/-! ## Slashes at the start -/

private theorem suffix_dropWhile {p : Char → Bool} {c : Char} (hc : p c = false)
    (front back : Text) : c :: back <:+ (front ++ c :: back).dropWhile p := by
  induction front with
  | nil => simp [hc]
  | cons d front ih =>
      rw [List.cons_append, List.dropWhile_cons]
      split
      · exact ih
      · exact (List.suffix_append front _).trans (List.suffix_cons d _)

/-- The directory of an entry in a directory starts with the same slashes, and goes on with the
same name. -/
private theorem isPrefix_parent (front : Text) {c : Char} {rest : Text} (hc : c ≠ '/')
    (hrest : '/' ∈ rest) : front ++ [c] <+: parent (front ++ c :: rest) := by
  obtain ⟨between, behind, rfl⟩ := List.append_of_mem hrest
  have hthrough : front ++ [c] <+: throughLastSlash (front ++ c :: (between ++ '/' :: behind)) := by
    have hslash : (decide ('/' ≠ '/')) = false := by decide
    have hsuffix := suffix_dropWhile (p := (· ≠ '/')) hslash behind.reverse
      (between.reverse ++ c :: front.reverse)
    rw [throughLastSlash, ← List.reverse_suffix, List.reverse_reverse]
    refine List.IsSuffix.trans ?_ (by simpa using hsuffix)
    exact ⟨'/' :: between.reverse, by simp⟩
  obtain ⟨more, hmore⟩ := hthrough
  have hnot : (front ++ [c] ++ more).all (· = '/') = false := by simp [hc]
  rw [parent, ← hmore]
  simp only [hnot, Bool.false_eq_true, if_false]
  have hsuffix := suffix_dropWhile (p := (· = '/')) (decide_eq_false hc) more.reverse front.reverse
  rw [← List.reverse_suffix, List.reverse_reverse]
  simpa using hsuffix

/-- A path below the directory of another starts with as many slashes. -/
theorem leadingSlashes_append_parent {path target : Text} (htarget : target.head? ≠ some '/') :
    leadingSlashes (append (parent path) target) = leadingSlashes path := by
  obtain ⟨n, body, hbody, rfl⟩ : ∃ n body, body.head? ≠ some '/' ∧
      path = List.replicate n '/' ++ body := by
    have hslashes : path.takeWhile (· = '/') =
        List.replicate (path.takeWhile (· = '/')).length '/' :=
      List.eq_replicate_of_mem fun c hc =>
        of_decide_eq_true (List.all_eq_true.mp (List.all_takeWhile (l := path)) c hc)
    refine ⟨(path.takeWhile (· = '/')).length, path.dropWhile (· = '/'), ?_, ?_⟩
    · intro hhead
      have hnot := List.head?_dropWhile_not (· = '/') path
      rw [hhead] at hnot
      simp at hnot
    · rw [← hslashes, List.takeWhile_append_dropWhile]
  by_cases hslash : '/' ∈ body
  · cases body with
    | nil => cases hslash
    | cons c body =>
        have hc : c ≠ '/' := by simpa using hbody
        have hmem : '/' ∈ body := (List.mem_cons.mp hslash).resolve_left (Ne.symm hc)
        obtain ⟨more, hmore⟩ := (isPrefix_parent (List.replicate n '/') hc hmem).trans
          (isPrefix_append htarget)
        rw [← hmore, List.append_assoc]
        exact leadingSlashes_append (by simpa using hc) hbody
  · have hthrough : throughLastSlash (List.replicate n '/' ++ body) = List.replicate n '/' := by
      rw [throughLastSlash, List.reverse_append, List.dropWhile_append_of_pos]
      · cases n with
        | zero => rfl
        | succ n => simp [List.replicate_succ']
      · intro c hc
        have hne : c ≠ '/' := fun heq => hslash (heq ▸ List.mem_reverse.mp hc)
        simpa using hne
    have happend : append (parent (List.replicate n '/' ++ body)) target =
        List.replicate n '/' ++ target := by
      rw [parent, hthrough]
      simp only [List.all_replicate, decide_true, if_true, ite_self, append,
        if_neg htarget]
      cases n with
      | zero => rfl
      | succ n => exact if_pos (by simp [List.replicate_succ'])
    rw [happend]
    exact leadingSlashes_append htarget hbody

end AddonBundle.Path
