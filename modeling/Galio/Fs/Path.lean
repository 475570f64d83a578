import Galio.Fs.VfsPaths

/-! The shared path helpers: normal forms of paths, and paths resolved against a working directory. -/

namespace Galio

/-- The rows of the component table. -/
def pathMaxComponents : Nat := 64

/-- The bytes of one row, with the end mark. -/
def pathComponentLen : Nat := 256

/-- The bytes of the scratch buffers, with the end mark. -/
def pathScratchLen : Nat := pathComponentLen * 4

/-- How a path function returns. -/
inductive PathResult where
  /-- A row beyond the component table is written. -/
  | overrun
  /-- The null pointer. -/
  | null
  /-- A text in the output buffer. -/
  | text (path : CString)

def pathIsAbsolute (path : CString) : Bool :=
  path.take 1 = [slash] || path.take 2 = [dot, slash] || path = [dot]

/-- The rows that a name is copied to, each of at most 255 bytes. -/
def cutName : Nat → CString → List CString
  | 0, _ => []
  | steps + 1, name =>
    if name = [] then []
    else name.take (pathComponentLen - 1) :: cutName steps (name.drop (pathComponentLen - 1))

/-- The components that the loop of `normalize_components` reads. -/
def pathPieces (path : CString) : List CString := (pathNames path).flatMap fun name => cutName name.length name

/-- One pass of that loop over the rows in use, the last one first. -/
def normalizeStep (absolute : Bool) (rows : List CString) (component : CString) : Option (List CString) :=
  -- The component is copied to the next row before anything else.
  if rows.length ≥ pathMaxComponents then none
  else if component = [dot] then some rows
  else if component = [dot, dot] then
    match rows with
    | [] => if absolute then some [] else some [component]
    | above :: below =>
      if above ≠ [dot, dot] then some below
      else if absolute then some rows
      else some (component :: rows)
  else some (component :: rows)

/-- The loop of `normalize_components` that writes rows up to the first that does not fit. -/
def joinRows (outSize : Nat) (out : CString) : List CString → CString
  | [] => out
  | row :: rest =>
    if out.length + row.length + 1 ≥ outSize then out
    else joinRows outSize ((if out ≠ [] ∧ out.getLast? ≠ some slash then out ++ [slash] else out) ++ row) rest

/-- `normalize_components` with a buffer that has room. -/
def normalizeComponents (path : CString) (absolute : Bool) (outSize : Nat) : PathResult :=
  match (pathPieces path).foldlM (normalizeStep absolute) [] with
  | none => .overrun
  | some rows =>
    let out := joinRows outSize (if absolute then [slash] else []) rows.reverse
    if out = [] then .text (if outSize > 1 then [dot] else []) else .text out

/-- What `path_normalize` hands on of an absolute path, cut to the scratch buffer where it starts with a dot. -/
def pathScratch (path : CString) : CString :=
  if path.take 2 = [dot, slash] then slash :: (path.drop 2).take (pathScratchLen - 2) else path

/-- The end of `path_normalize`, which puts a dot before an absolute path. -/
def dotPath (outSize : Nat) (out : CString) : CString :=
  if out.take 1 = [slash] then
    if out = [slash] then [dot]
    else if out.length + 1 < outSize then dot :: slash :: out.drop 1
    else dot :: out.drop 1
  else out

def pathNormalize (path : CString) (outSize : Nat) : PathResult :=
  if outSize = 0 then .null
  else if path = [] then .text (if outSize > 1 then [dot] else [])
  else if pathIsAbsolute path then
    match normalizeComponents (pathScratch path) true outSize with
    | .text out => .text (dotPath outSize out)
    | result => result
  else normalizeComponents path false outSize

/-- The working directory in the scratch buffer of `path_resolve`, with a slash if there is room. -/
def pathBase (cwd : CString) : CString :=
  let base := if cwd = [] then [slash] else cwd.take (pathScratchLen - 1)
  if base.getLast? ≠ some slash ∧ base.length + 1 < pathScratchLen then base ++ [slash] else base

/-- `path_resolve`; a null pointer counts as an empty text. -/
def pathResolve (cwd path : CString) (outSize : Nat) : PathResult :=
  if outSize = 0 then .null
  else if path = [] then pathNormalize cwd outSize
  else if pathIsAbsolute path then pathNormalize path outSize
  else if (pathBase cwd).length + path.length < pathScratchLen then pathNormalize (pathBase cwd ++ path) outSize
  else .text []

end Galio
