import CiPipeline.Job.When

/-!
# Caches

A cache is named by the content of key files when it has any, with an optional label before it, and
otherwise by a fixed key.
-/

namespace CiPipeline

inductive CachePolicy where
  | pull
  | push
  | pullPush
  deriving DecidableEq, Repr

def CachePolicy.text : CachePolicy → String
  | pull => "pull"
  | push => "push"
  | pullPush => "pull-push"

instance : ToNode CachePolicy := ⟨fun p => .str p.text⟩

structure Cache where
  paths : List String := []
  keyFiles : List String := []
  key : Option String := none
  keyLabel : Option String := none
  untracked : Option Bool := none
  when : Option When := none
  policy : Option CachePolicy := none
  deriving DecidableEq, Repr, Inhabited

namespace Cache

inductive Setting where
  | path (path : String)
  | keyFile (path : String)
  | key (key : String)
  | keyLabel (label : String)
  | untracked (untracked : Bool)
  | when (when : When)
  | policy (policy : CachePolicy)
  deriving DecidableEq, Repr

def apply (cache : Cache) : Setting → Cache
  | .path path => { cache with paths := cache.paths ++ [path] }
  | .keyFile path => { cache with keyFiles := cache.keyFiles ++ [path] }
  | .key key => { cache with key := some key }
  | .keyLabel label => { cache with keyLabel := some label }
  | .untracked untracked => { cache with untracked := some untracked }
  | .when w => { cache with when := some w }
  | .policy policy => { cache with policy := some policy }

def configure (cache : Cache) (settings : List Setting) : Cache := settings.foldl apply cache

/-- Key files win over a fixed key, and a label alone names nothing. -/
def keyNode? (cache : Cache) : Option Node :=
  if cache.keyFiles.isEmpty then cache.key.map .str
  else some (toNode ((Mapping.empty.add "files" cache.keyFiles).addOpt "prefix" cache.keyLabel))

def toMapping (cache : Cache) : Mapping :=
  Mapping.empty
    |>.addOpt "key" cache.keyNode?
    |>.addNonEmpty "paths" cache.paths
    |>.addOpt "untracked" cache.untracked
    |>.addOpt "when" cache.when
    |>.addOpt "policy" cache.policy

/-- Nothing would be written for this cache. -/
def isEmpty (cache : Cache) : Bool := cache.toMapping.isEmpty

end Cache

instance : ToNode Cache := ⟨fun cache => toNode cache.toMapping⟩

end CiPipeline
