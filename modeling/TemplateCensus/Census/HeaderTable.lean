import TemplateCensus.Keyed

/-!
Public headers. A table maps the bare name of an implementation header to the header that programs
should include instead.
-/

namespace TemplateCensus

abbrev HeaderTable := Keyed String

namespace HeaderTable

def standard : HeaderTable := Keyed.ofList [
  ("", ""),
  ("stringfwd.h", "string"),
  ("stl_set.h", "set"),
  ("random.h", "random"),
  ("stl_vector.h", "vector"),
  ("basic_string.h", "string"),
  ("stl_bvector.h", "vector"),
  ("stl_multiset.h", "set"),
  ("stl_map.h", "map"),
  ("stl_multimap.h", "map"),
  ("stl_list.h", "list"),
  ("stl_deque.h", "deque"),
  ("stl_queue.h", "queue"),
  ("stl_stack.h", "stack"),
  ("stl_pair.h", "utility"),
  ("unordered_map.h", "unordered_map"),
  ("unordered_set.h", "unordered_set"),
  ("unique_ptr.h", "memory"),
  ("shared_ptr.h", "memory"),
  ("shared_ptr_base.h", "memory"),
  ("std_function.h", "functional")]

def withOverrides (overrides : Keyed String) : HeaderTable := standard.merge overrides

def fileName (path : String) : String :=
  String.ofList (path.toList.reverse.takeWhile fun c => c ≠ '/' && c ≠ '\\').reverse

end HeaderTable

end TemplateCensus
