/-
Reserved names. A lowered module has a textual form, in which it is a
function definition and its nodes are variables, and a host, an object
whose attributes are its tensors and loops. Both have names of their
own. This module holds those names as tables.
-/

namespace OnnxLowering.Reserved

-- ======================================================= the textual form

/-- The words of the textual form that cannot name anything. -/
def keywords : List String :=
  ["False", "None", "True", "and", "as", "assert", "async", "await", "break",
   "class", "continue", "def", "del", "elif", "else", "except", "finally", "for",
   "from", "global", "if", "import", "in", "is", "lambda", "nonlocal", "not", "or",
   "pass", "raise", "return", "try", "while", "with", "yield"]

/-- The names that the textual form can refer to without a definition. A
variable is never given one of them. -/
def builtins : List String :=
  ["ArithmeticError", "AssertionError", "AttributeError", "BaseException",
   "BaseExceptionGroup", "BlockingIOError", "BrokenPipeError", "BufferError",
   "BytesWarning", "ChildProcessError", "ConnectionAbortedError", "ConnectionError",
   "ConnectionRefusedError", "ConnectionResetError", "DeprecationWarning",
   "EOFError", "Ellipsis", "EncodingWarning", "EnvironmentError", "Exception",
   "ExceptionGroup", "FileExistsError", "FileNotFoundError", "FloatingPointError",
   "FutureWarning", "GeneratorExit", "IOError", "ImportError", "ImportWarning",
   "IndentationError", "IndexError", "InterruptedError", "IsADirectoryError",
   "KeyError", "KeyboardInterrupt", "LookupError", "MemoryError",
   "ModuleNotFoundError", "NameError", "NotADirectoryError", "NotImplemented",
   "NotImplementedError", "OSError", "OverflowError", "PendingDeprecationWarning",
   "PermissionError", "ProcessLookupError", "RecursionError", "ReferenceError",
   "ResourceWarning", "RuntimeError", "RuntimeWarning", "StopAsyncIteration",
   "StopIteration", "SyntaxError", "SyntaxWarning", "SystemError", "SystemExit",
   "TabError", "TimeoutError", "TypeError", "UnboundLocalError",
   "UnicodeDecodeError", "UnicodeEncodeError", "UnicodeError",
   "UnicodeTranslateError", "UnicodeWarning", "UserWarning", "ValueError",
   "Warning", "ZeroDivisionError", "__build_class__", "__debug__", "__doc__",
   "__import__", "__loader__", "__name__", "__package__", "__spec__", "abs",
   "aiter", "all", "anext", "any", "ascii", "bin", "bool", "breakpoint",
   "bytearray", "bytes", "callable", "chr", "classmethod", "compile", "complex",
   "copyright", "credits", "delattr", "dict", "dir", "divmod", "enumerate", "eval",
   "exec", "exit", "filter", "float", "format", "frozenset", "getattr", "globals",
   "hasattr", "hash", "help", "hex", "id", "input", "int", "isinstance",
   "issubclass", "iter", "len", "license", "list", "locals", "map", "max",
   "memoryview", "min", "next", "object", "oct", "open", "ord", "pow", "print",
   "property", "quit", "range", "repr", "reversed", "round", "set", "setattr",
   "slice", "sorted", "staticmethod", "str", "sum", "super", "tuple", "type",
   "vars", "zip"]

/-- The name through which the textual form reaches functions on tensors
and element types. A parameter of that name hides them. -/
def library : String := "torch"

/-- The words for the numbers that are not finite. Parameters of these
names hide them. -/
def infiniteNumber : String := "inf"

def undefinedNumber : String := "nan"

/-- The names that the textual form defines before any variable. -/
def prelude : List String :=
  [infiniteNumber, undefinedNumber, "NoneType", library, "device", "fx_pytree", "pytree"]

/-- The names that cannot be a parameter of the textual form: its words,
the host that is its first parameter, and one constant. -/
def isIllegalParameter (name : String) : Bool :=
  keywords.contains name || name = "self" || name = "__debug__"

/-- The names that no variable of the textual form is given. -/
def isIllegalVariable (name : String) : Bool :=
  keywords.contains name || builtins.contains name || prelude.contains name

-- =============================================================== the host

/-- The members that every host has before anything is registered on
it. -/
def members : List String :=
  ["__annotations__", "__call__", "__class__", "__delattr__", "__dict__", "__dir__",
   "__doc__", "__eq__", "__format__", "__ge__", "__getattr__", "__getattribute__",
   "__getstate__", "__gt__", "__hash__", "__init__", "__init_subclass__", "__le__",
   "__lt__", "__module__", "__ne__", "__new__", "__reduce__", "__reduce_ex__",
   "__repr__", "__setattr__", "__setstate__", "__sizeof__", "__str__",
   "__subclasshook__", "__weakref__", "_apply", "_backward_hooks",
   "_backward_pre_hooks", "_buffers", "_call_impl", "_compiled_call_impl",
   "_forward_hooks", "_forward_hooks_always_called", "_forward_hooks_with_kwargs",
   "_forward_pre_hooks", "_forward_pre_hooks_with_kwargs", "_get_backward_hooks",
   "_get_backward_pre_hooks", "_get_name", "_is_full_backward_hook",
   "_load_from_state_dict", "_load_state_dict_post_hooks",
   "_load_state_dict_pre_hooks", "_maybe_warn_non_full_backward_hook", "_modules",
   "_named_members", "_non_persistent_buffers_set", "_parameters",
   "_register_load_state_dict_pre_hook", "_register_state_dict_hook",
   "_replicate_for_data_parallel", "_save_to_state_dict", "_slow_forward",
   "_state_dict_hooks", "_state_dict_pre_hooks", "_version", "_wrapped_call_impl",
   "T_destination", "add_module", "apply", "bfloat16", "buffers", "call_super_init",
   "children", "compile", "cpu", "cuda", "double", "dump_patches", "eval",
   "extra_repr", "float", "forward", "get_buffer", "get_extra_state",
   "get_parameter", "get_submodule", "half", "ipu", "load_state_dict", "modules",
   "mtia", "named_buffers", "named_children", "named_modules", "named_parameters",
   "parameters", "register_backward_hook", "register_buffer",
   "register_forward_hook", "register_forward_pre_hook",
   "register_full_backward_hook", "register_full_backward_pre_hook",
   "register_load_state_dict_post_hook", "register_load_state_dict_pre_hook",
   "register_module", "register_parameter", "register_state_dict_post_hook",
   "register_state_dict_pre_hook", "requires_grad_", "set_extra_state",
   "set_submodule", "share_memory", "state_dict", "to", "to_empty", "train",
   "training", "type", "xpu", "zero_grad"]

/-- The operations that a finished host has besides. -/
def finishedOperations : List String :=
  ["__copy__", "__deepcopy__", "__jit_unused_properties__", "__reduce_package__",
   "_deepcopy_init", "_recompile_submodules", "_register_create_node_hook",
   "_register_deepcopy_hook", "_register_erase_node_hook",
   "_register_replace_node_hook", "_set_replace_hook", "_unregister_create_node_hook",
   "_unregister_deepcopy_hook", "_unregister_erase_node_hook",
   "_unregister_replace_node_hook", "add_submodule", "delete_all_unused_submodules",
   "delete_submodule", "print_readable", "recompile", "to_folder"]

/-- The data that a finished host keeps about its graph, set once its
attributes are in place. -/
def finishedGraph : List String :=
  ["_code", "_graph", "_lineno_map", "_prologue_start", "graph"]

/-- The data that a finished host keeps besides, set once it has its
textual form. -/
def finishedData : List String :=
  ["_create_node_hooks", "_deepcopy_hooks", "_erase_node_hooks", "_replace_hooks",
   "_tracer_extras", "meta"]

/-- The members that a finished host sets to nothing, whatever is there
under their names. -/
def finishedBlanks : List String := ["_tracer_cls", "shape_env"]

/-- The member that a finished host gets with its textual form, and that
a loop cannot hide. -/
def finishedCall : String := "_wrapped_call"

/-- The member of a finished host that shows its textual form. -/
def finishedText : String := "code"

end OnnxLowering.Reserved
